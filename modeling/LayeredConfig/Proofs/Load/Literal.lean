import LayeredConfig.Proofs.Load.Unused
import LayeredConfig.Proofs.Placeholder.Lookups

/-!
# Loading a text

`load_literal`: how a text of several lines loads depends on what the environment sets for the
names in it and on nothing else outside the program. No file is looked at, the variable that names
the profiles counts only if its name happens to stand in the text, and a value that is inserted
leads to no further lookup.
-/

namespace LayeredConfig

open Run

namespace Loader

variable {l : Loader} {environment : Environment} {content : String} {path : Option String}

def within (l : Loader) (environment : Environment) : Loader := { l with environment }

theorem within_readText (h : environment.AgreesOn l.environment content.toList) :
    (l.within environment).readText content path = l.readText content path := by
  have hresolve : Placeholder.resolve content l.options environment =
      Placeholder.resolve content l.options l.environment := Placeholder.resolve_congr h
  unfold readText within
  rw [hresolve]
  rfl

theorem within_readDocument (h : environment.AgreesOn l.environment content.toList) :
    (l.within environment).readDocument content path = l.readDocument content path := by
  unfold readDocument
  rw [within_readText h]

theorem within_loadContent (h : environment.AgreesOn l.environment content.toList) :
    (l.within environment).loadContent content = l.loadContent content := by
  unfold loadContent
  rw [within_readDocument h]
  rfl

theorem within_load_text (hpath : mayBePath content = false)
    (h : environment.AgreesOn l.environment content.toList) :
    (l.within environment).load (.text content) = l.load (.text content) := by
  unfold load
  simp only [hpath, Bool.false_and, Bool.false_eq_true, if_false, within_loadContent h]

theorem mayBePath_of_line (h : '\n' ∈ content.toList) : mayBePath content = false := by
  simp [mayBePath, h]

end Loader

/-- A text with a line break loads the same over any two file systems and in any two environments
that agree on the names occurring in it: with the same outcome, whatever was recorded before, and
with the same records. -/
theorem load_literal {l : Loader} {content : String} (hline : '\n' ∈ content.toList)
    {fs : FileSystem} {environment : Environment}
    (h : environment.AgreesOn l.environment content.toList) :
    { l with fileSystem := fs, environment }.load (.text content) = l.load (.text content) ∧
      ∀ j k, (({ l with fileSystem := fs, environment }.load (.text content)).start j).1 =
        ((l.load (.text content)).start k).1 := by
  have hpath : Loader.mayBePath content = false := Loader.mayBePath_of_line hline
  have hload : ((l.within environment).mount fs).load (.text content) = l.load (.text content) :=
    (Loader.mount_load_text (.inr hpath)).trans (Loader.within_load_text hpath h)
  refine ⟨hload, fun j k => ?_⟩
  exact (((l.within environment).mount fs).load_steady (.text content) j k).trans
    (congrArg (fun run => (run.start k).1) hload)

/-- The value of `PORT` looks like a placeholder itself, and only one of the environments sets the
name in it. They differ on the profiles and on the files, too. -/
theorem load_literal_value :
    let port := ("PORT", "$\x7bSECRET\x7d")
    let l : Loader := { textLoader with environment := .ofList [port] }
    let environment := Environment.ofList [port, ("SECRET", "1"), ("YODEL_PROFILES", "dev")]
    environment.AgreesOn l.environment "port: $\x7bPORT:80\x7d\n".toList ∧
      { l with fileSystem := oneOverlay (.ok ""), environment }.load
          (.text "port: $\x7bPORT:80\x7d\n") =
        l.load (.text "port: $\x7bPORT:80\x7d\n") := by
  intro port l environment
  have hagrees : environment.AgreesOn l.environment "port: $\x7bPORT:80\x7d\n".toList := by
    intro name _ hin
    have hsecret : (name == "SECRET") = false := by
      refine beq_false_of_ne ?_
      rintro rfl
      exact absurd hin (by decide +kernel)
    have hprofiles : (name == "YODEL_PROFILES") = false := by
      refine beq_false_of_ne ?_
      rintro rfl
      exact absurd hin (by decide +kernel)
    simp [environment, l, Environment.ofList, List.lookup_cons, hsecret, hprofiles]
  exact ⟨hagrees, (load_literal (by decide +kernel) hagrees).1⟩

end LayeredConfig
