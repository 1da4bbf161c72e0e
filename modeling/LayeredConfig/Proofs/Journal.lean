import LayeredConfig.FileSystem.Basic
import LayeredConfig.Proofs.OrderedMap
import LayeredConfig.Proofs.Outcome

/-!
# What runs write

`x.Writes Q` says of a run that it only adds events to the journal, under the trace that it finds,
and that its outcome and these events fulfil `Q`. What is put together from runs writes what its
parts write, one after the other; what follows a failure writes nothing.
-/

namespace LayeredConfig

-- ---------------------------------------------------------------------------
-- Journals
-- ---------------------------------------------------------------------------

namespace Journal

/-- The journal with more events, under the trace in use. -/
def extend (j : Journal) (events : List Event) : Journal :=
  { j with records := j.records ++ events.map (Record.mk j.trace) }

@[simp] theorem extend_nil (j : Journal) : j.extend [] = j := by simp [extend]

@[simp] theorem extend_extend (j : Journal) (events more : List Event) :
    (j.extend events).extend more = j.extend (events ++ more) := by simp [extend]

theorem foldl_record (j : Journal) (events : List Event) :
    events.foldl record j = j.extend events := by
  induction events generalizing j with
  | nil => exact j.extend_nil.symm
  | cons e events ih =>
    have hrecord : j.record e = j.extend [e] := rfl
    rw [List.foldl_cons, ih, hrecord, extend_extend, List.singleton_append]

/-- The least severe level lets a listener hear everything. -/
theorem heard_debug (j : Journal) : j.heard .debug = j.records := by
  refine List.filter_eq_self.2 fun r _ => ?_
  cases r.event.level <;> rfl

end Journal

/-- A field of an event: the stage and the path show only where nothing else is said. -/
theorem Fields.get?_event (stage : String) (path : Option String) (more : Fields) (key : String) :
    (event stage path more).get? key = (more.get? key).or
      (if "path" = key then some (Document.optional path)
      else if "stage" = key then some (Document.str stage) else none) := by
  rw [event, OrderedMap.get?_merge, ← OrderedMap.get?_empty key, ← OrderedMap.get?_insert,
    ← OrderedMap.get?_insert]
  rfl

/-- What listeners see of a field: what the event says, and the trace where it says nothing. -/
theorem Record.get?_context (r : Record) (key : String) :
    r.context.get? key = (r.event.fields.get? key).or
      (if "trace_id" = key then some (Document.optional r.trace) else none) := by
  rw [context, OrderedMap.get?_merge, ← OrderedMap.get?_empty key, ← OrderedMap.get?_insert]
  rfl

-- ---------------------------------------------------------------------------
-- Runs
-- ---------------------------------------------------------------------------

namespace Run

variable {α β : Type} {x : Run α} {f : α → Run β} {P : Event → Prop}
  {Q : Except Failure α → List Event → Prop} {R : Except Failure β → List Event → Prop}

/-- The run adds events to the journal, and its outcome and the events fulfil `Q`. -/
def Writes (x : Run α) (Q : Except Failure α → List Event → Prop) : Prop :=
  ∀ j, ∃ events, (x.start j).2 = j.extend events ∧ Q (x.start j).1 events

theorem Writes.imp {Q' : Except Failure α → List Event → Prop} (h : x.Writes Q)
    (hQ : ∀ r es, Q r es → Q' r es) : x.Writes Q' := fun j =>
  have ⟨events, hj, hq⟩ := h j
  ⟨events, hj, hQ _ _ hq⟩

theorem writes_ofExcept {r : Except Failure α} (h : Q r []) : (ofExcept r).Writes Q :=
  fun j => ⟨[], j.extend_nil.symm, h⟩

theorem writes_pure {a : α} (h : Q (.ok a) []) : (pure a : Run α).Writes Q :=
  writes_ofExcept h

theorem writes_throw {e : Failure} (h : Q (.error e) []) : (throw e : Run α).Writes Q :=
  writes_ofExcept h

theorem writes_report {level : Level} {message stage : String} {path : Option String}
    {more : List (String × Document)} {Q : Except Failure Unit → List Event → Prop}
    (h : Q (.ok ()) [⟨level, message, Fields.event stage path (OrderedMap.ofList more)⟩]) :
    (report level message stage path more).Writes Q :=
  fun _ => ⟨_, rfl, h⟩

theorem Writes.bind (hx : x.Writes Q) (herror : ∀ e es, Q (.error e) es → R (.error e) es)
    (hok : ∀ a es, Q (.ok a) es → (f a).Writes fun r more => R r (es ++ more)) :
    (x >>= f).Writes R := by
  intro j
  obtain ⟨es, hj, hq⟩ := hx j
  rw [start_bind]
  cases hr : x.start j with
  | mk r k =>
    rw [hr] at hj hq
    subst hj
    cases r with
    | error e => exact ⟨es, rfl, herror e es hq⟩
    | ok a =>
      obtain ⟨more, hk, hmore⟩ := hok a es hq (j.extend es)
      exact ⟨es ++ more, hk.trans (j.extend_extend es more), hmore⟩

theorem writes_report_bind {level : Level} {message stage : String} {path : Option String}
    {fields : List (String × Document)} {f : Unit → Run β}
    (h : (f ()).Writes fun r more =>
      R r (⟨level, message, Fields.event stage path (OrderedMap.ofList fields)⟩ :: more)) :
    (report level message stage path fields >>= f).Writes R := by
  intro j
  obtain ⟨more, hj, hr⟩ :=
    h (j.extend [⟨level, message, Fields.event stage path (OrderedMap.ofList fields)⟩])
  exact ⟨_, hj.trans (j.extend_extend _ more), hr⟩

theorem Writes.tryCatch {handle : Failure → Run α} {Q' : Except Failure α → List Event → Prop}
    (hx : x.Writes Q) (hok : ∀ a es, Q (.ok a) es → Q' (.ok a) es)
    (herror : ∀ e es, Q (.error e) es → (handle e).Writes fun r more => Q' r (es ++ more)) :
    (tryCatch x handle).Writes Q' := by
  intro j
  obtain ⟨es, hj, hq⟩ := hx j
  rw [start_tryCatch]
  cases hr : x.start j with
  | mk r k =>
    rw [hr] at hj hq
    subst hj
    cases r with
    | ok a => exact ⟨es, rfl, hok a es hq⟩
    | error e =>
      obtain ⟨more, hk, hmore⟩ := herror e es hq (j.extend es)
      exact ⟨es ++ more, hk.trans (j.extend_extend es more), hmore⟩

theorem Writes.steady (hx : x.Writes Q) (hs : x.Steady) :
    x.Writes fun r es => r = (x.start {}).1 ∧ Q r es := fun j =>
  have ⟨events, hj, hq⟩ := hx j
  ⟨events, hj, hs j {}, hq⟩

-- ---------------------------------------------------------------------------
-- Every event
-- ---------------------------------------------------------------------------

/-- Every event that the run writes is one that `P` admits. -/
def WritesOnly (P : Event → Prop) (x : Run α) : Prop :=
  x.Writes fun _ events => ∀ e ∈ events, P e

theorem WritesOnly.ofExcept (r : Except Failure α) : (ofExcept r).WritesOnly P :=
  writes_ofExcept nofun

theorem WritesOnly.pure (a : α) : (Pure.pure a : Run α).WritesOnly P := .ofExcept _

theorem WritesOnly.throw (e : Failure) : (throw e : Run α).WritesOnly P := .ofExcept _

theorem WritesOnly.report {level : Level} {message stage : String} {path : Option String}
    {more : List (String × Document)}
    (h : P ⟨level, message, Fields.event stage path (OrderedMap.ofList more)⟩) :
    (report level message stage path more).WritesOnly P :=
  writes_report (List.forall_mem_singleton.2 h)

theorem WritesOnly.bind (hx : x.WritesOnly P) (hf : ∀ a, (f a).WritesOnly P) :
    (x >>= f).WritesOnly P :=
  Writes.bind hx (fun _ _ h => h) fun a _ hes =>
    (hf a).imp fun _ _ hmore => List.forall_mem_append.2 ⟨hes, hmore⟩

theorem WritesOnly.tryCatch {handle : Failure → Run α} (hx : x.WritesOnly P)
    (hh : ∀ e, (handle e).WritesOnly P) : (tryCatch x handle).WritesOnly P :=
  Writes.tryCatch hx (fun _ _ h => h) fun e _ hes =>
    (hh e).imp fun _ _ hmore => List.forall_mem_append.2 ⟨hes, hmore⟩

end Run

theorem FileSystem.fetch_writesOnly {P : Event → Prop} {fs : FileSystem} {path : String}
    (h : ∀ e ∈ (fs.read path).events, P e) : (fs.fetch path).WritesOnly P := by
  refine Run.WritesOnly.bind (fun j => ?_) fun _ => .ofExcept _
  exact ⟨(fs.read path).events, Journal.foldl_record j _, h⟩

end LayeredConfig
