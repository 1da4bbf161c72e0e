import LayeredConfig.Proofs.Context.Provenance
import LayeredConfig.Proofs.Load.Steady
import LayeredConfig.Proofs.Path.Text
import Mathlib.Data.List.Nodup

/-!
# The keys of a context

`lookup_keys`: how far a context is a mapping from its keys to its leaves. The keys of readable
paths are distinct, contained, and answered with the leaf of the path that they are the text of. The
key of any other stored path leads elsewhere: looking it up fails, or finds the leaf of another
path.
-/

namespace LayeredConfig.Context

variable {c : Context} {key : Text} {p : Path} {v : Leaf}

theorem lookup_ok_iff :
    c.lookup key = .ok v ↔ ∃ p, Path.read key = .ok p ∧ c.tree.get? p = some v := by
  rw [lookup, bind_ok]
  refine exists_congr fun p => and_congr_right fun _ => ?_
  cases c.tree.get? p with
  | some w => exact pure_ok.trans (Option.some_inj).symm
  | none => exact iff_of_false nofun nofun

theorem lookup_text (hp : p.Readable) (hv : c.tree.get? p = some v) : c.lookup p.text = .ok v :=
  lookup_ok_iff.2 ⟨p, Path.read_text hp, hv⟩

theorem contains_text (hp : p.Readable) (hm : p ∈ c.tree.keys) :
    c.contains p.text = .ok true := by
  rw [contains_ok c (Path.read_text hp), OrderedMap.contains_iff.2 hm]

theorem nodup_texts {paths : List Path} (hn : paths.Nodup) (hr : ∀ p ∈ paths, p.Readable) :
    (paths.map Path.text).Nodup :=
  List.Nodup.map_on (fun p hp q hq h => Path.eq_of_text_eq (hr p hp) (hr q hq) h) hn

/-- What a path that is not readable has for a key is the key of another path, if of any. -/
theorem lookup_unreadable (hp : ¬ p.Readable) (h : c.lookup p.text = .ok v) :
    ∃ q, q ≠ p ∧ q.Readable ∧ c.tree.get? q = some v := by
  obtain ⟨q, hq, hv⟩ := lookup_ok_iff.1 h
  refine ⟨q, ?_, Path.read_readable hq, hv⟩
  rintro rfl
  exact hp (Path.read_readable hq)

/-- The text of a stored path reads as that path exactly if the path is readable. Then it is a key
that the context contains, and looking it up gives the leaf that is stored at the path; no other
readable path has the same key. Where the path is not readable, its key leads to the leaf of another
path or to none. A context that stores readable paths alone is a mapping from its keys. -/
theorem lookup_keys (c : Context) :
    (∀ p ∈ c.tree.keys, Path.read p.text = .ok p ↔ p.Readable) ∧
    (∀ e ∈ c.tree.entries, e.1.Readable →
      c.contains e.1.text = .ok true ∧ c.lookup e.1.text = .ok e.2) ∧
    ((c.tree.keys.filter fun p => p.Readable).map Path.text).Nodup ∧
    (∀ p ∈ c.tree.keys, ¬ p.Readable → ∀ v, c.lookup p.text = .ok v →
      ∃ q ∈ c.tree.keys, q ≠ p ∧ c.tree.get? q = some v) ∧
    ((∀ p ∈ c.tree.keys, p.Readable) →
      c.keys.Nodup ∧ ∀ key ∈ c.keys, c.contains key = .ok true) := by
  refine ⟨fun p _ => Path.read_text_iff, fun e he hr => ⟨?_, ?_⟩, ?_, ?_, fun h => ⟨?_, ?_⟩⟩
  · exact contains_text hr (OrderedMap.mem_keys_of_mem he)
  · exact lookup_text hr (OrderedMap.get?_eq_some_iff.2 he)
  · exact nodup_texts (c.tree.distinct.filter _) fun p hp => by simpa using (List.mem_filter.1 hp).2
  · intro p _ hp v hv
    obtain ⟨q, hne, -, hq⟩ := lookup_unreadable hp hv
    exact ⟨q, OrderedMap.mem_keys_of_mem (OrderedMap.get?_eq_some_iff.1 hq), hne, hq⟩
  · exact nodup_texts c.tree.distinct h
  · intro key hkey
    obtain ⟨p, hp, rfl⟩ := List.mem_map.1 hkey
    exact contains_text (h p hp) hp

theorem lookup_keys_nested :
    ∃ c, ofText "\x7b\"a\":[\x7b\"b\":1\x7d]\x7d" = .ok c ∧ c.keys.Nodup ∧
      ∀ key ∈ c.keys, c.contains key = .ok true := by
  have hload : ((ofText "\x7b\"a\":[\x7b\"b\":1\x7d]\x7d").map fun c => c.tree.keys) =
      .ok [⟨[.key "a", .index 0, .key "b"]⟩] := by
    decide +kernel
  obtain ⟨c, hc, hkeys⟩ := map_ok.1 hload
  refine ⟨c, hc, (lookup_keys c).2.2.2.2 ?_⟩
  rw [hkeys]
  decide +kernel

/-- A key with a dot is not found under its own text, and it may have the text of another path. -/
theorem lookup_keys_dotted :
    ((ofText "\x7b\"a.b\":1\x7d").map fun c => (c.keys, c.contains "a.b", c.lookup "a.b")) =
      .ok (["a.b"], .ok false, .error (.config (.pathNotFound "a.b"))) ∧
    ((ofText "\x7b\"a.b\":1,\"a\":\x7b\"b\":2\x7d\x7d").map fun c => (c.keys, c.lookup "a.b")) =
      .ok (["a.b", "a.b"], .ok (.int 2)) := by
  decide +kernel

end LayeredConfig.Context
