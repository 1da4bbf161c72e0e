import LayeredConfig.Journal
import Mathlib.Data.List.Perm.Basic

/-!
# Outcomes

Laws of computations that may fail. A run also writes a journal. Where a run is `Steady`, what was
recorded before it has no part in how it ends, so outcomes of runs combine like plain results.
-/

namespace LayeredConfig

-- ---------------------------------------------------------------------------
-- Results
-- ---------------------------------------------------------------------------

section

variable {ε ε' α β : Type}

theorem bind_ok {x : Except ε α} {f : α → Except ε β} {b : β} :
    x >>= f = .ok b ↔ ∃ a, x = .ok a ∧ f a = .ok b := by
  cases x <;> simp [bind, Except.bind]

theorem bind_error {x : Except ε α} {f : α → Except ε β} {e : ε} :
    x >>= f = .error e ↔ x = .error e ∨ ∃ a, x = .ok a ∧ f a = .error e := by
  cases x <;> simp [bind, Except.bind]

theorem pure_ok {a b : α} : (pure a : Except ε α) = .ok b ↔ a = b := by
  simp [pure, Except.pure]

theorem mapError_ok {x : Except ε α} {f : ε → ε'} {a : α} : x.mapError f = .ok a ↔ x = .ok a := by
  cases x with
  | error e => exact ⟨nofun, nofun⟩
  | ok b => exact ⟨fun h => congrArg _ (Except.ok.inj h), fun h => congrArg _ (Except.ok.inj h)⟩

theorem mapError_error {x : Except ε α} {f : ε → ε'} {e' : ε'} :
    x.mapError f = .error e' ↔ ∃ e, x = .error e ∧ f e = e' := by
  cases x <;> simp [Except.mapError]

theorem map_ok {x : Except ε α} {f : α → β} {b : β} :
    x.map f = .ok b ↔ ∃ a, x = .ok a ∧ f a = b := by
  cases x <;> simp [Except.map]

theorem map_error {x : Except ε α} {f : α → β} {e : ε} : x.map f = .error e ↔ x = .error e := by
  cases x <;> simp [Except.map]

theorem mapM_ok {f : α → Except ε β} {l : List α} {r : List β} :
    l.mapM f = .ok r ↔ List.Forall₂ (fun a b => f a = .ok b) l r := by
  induction l generalizing r with
  | nil => rw [List.mapM_nil, pure_ok, List.forall₂_nil_left_iff, eq_comm]
  | cons a l ih =>
    rw [List.mapM_cons, List.forall₂_cons_left_iff]
    simp only [bind_ok, pure_ok, ih]
    constructor
    · rintro ⟨b, hb, bs, hbs, rfl⟩
      exact ⟨b, bs, hb, hbs, rfl⟩
    · rintro ⟨b, bs, hb, hbs, rfl⟩
      exact ⟨b, hb, bs, hbs, rfl⟩

theorem mapM_append_ok {f : α → Except ε β} {l m : List α} {r : List β} :
    (l ++ m).mapM f = .ok r ↔ ∃ a b, l.mapM f = .ok a ∧ m.mapM f = .ok b ∧ a ++ b = r := by
  simp only [List.mapM_append, bind_ok, pure_ok]
  constructor
  · rintro ⟨a, ha, b, hb, rfl⟩
    exact ⟨a, b, ha, hb, rfl⟩
  · rintro ⟨a, b, ha, hb, rfl⟩
    exact ⟨a, ha, b, hb, rfl⟩

theorem mapM_perm {f : α → Except ε β} {l m : List α} {r : List β} (h : l.Perm m)
    (hr : l.mapM f = .ok r) : ∃ r', m.mapM f = .ok r' ∧ r.Perm r' := by
  obtain ⟨r', hr', hperm⟩ := List.perm_comp_forall₂ h.symm (mapM_ok.1 hr)
  exact ⟨r', mapM_ok.2 hr', hperm.symm⟩

theorem mapM_some {f : α → Option β} {l : List α} {r : List β} :
    l.mapM f = some r ↔ List.Forall₂ (fun a b => f a = some b) l r := by
  induction l generalizing r with
  | nil => simp [eq_comm]
  | cons a l ih =>
    rw [List.mapM_cons, List.forall₂_cons_left_iff]
    simp only [bind, Option.bind_eq_some_iff, pure, Option.some.injEq, ih]
    constructor
    · rintro ⟨b, hb, bs, hbs, rfl⟩
      exact ⟨b, bs, hb, hbs, rfl⟩
    · rintro ⟨b, bs, hb, hbs, rfl⟩
      exact ⟨b, hb, bs, hbs, rfl⟩

theorem forall₂_mem_right {R : α → β → Prop} {l : List α} {r : List β} (h : List.Forall₂ R l r)
    {b : β} (hb : b ∈ r) : ∃ a ∈ l, R a b := by
  induction h with
  | nil => cases hb
  | cons ha _ ih =>
    rcases List.mem_cons.1 hb with rfl | hb
    · exact ⟨_, List.mem_cons_self, ha⟩
    · obtain ⟨a, hal, hab⟩ := ih hb
      exact ⟨a, List.mem_cons_of_mem _ hal, hab⟩

theorem foldlM_ok {P : β → Prop} {f : β → α → Except ε β} {l : List α} {b b' : β}
    (hf : ∀ b a b', a ∈ l → P b → f b a = .ok b' → P b') (hb : P b)
    (h : l.foldlM f b = .ok b') : P b' := by
  induction l generalizing b with
  | nil =>
    cases pure_ok.1 h
    exact hb
  | cons a l ih =>
    rw [List.foldlM_cons] at h
    obtain ⟨c, hc, h⟩ := bind_ok.1 h
    exact ih (fun b a b' ha => hf b a b' (List.mem_cons_of_mem _ ha))
      (hf b a c List.mem_cons_self hb hc) h

theorem foldlM_prepared {γ : Type} {prepare : α → Except ε γ} {step : β → γ → Except ε β}
    {l : List α} {b b' : β}
    (h : l.foldlM (fun b a => do step b (← prepare a)) b = .ok b') :
    ∃ cs, l.mapM prepare = .ok cs ∧ cs.foldlM step b = .ok b' := by
  induction l generalizing b with
  | nil => exact ⟨[], rfl, h⟩
  | cons a l ih =>
    rw [List.foldlM_cons] at h
    obtain ⟨b₁, hb₁, h⟩ := bind_ok.1 h
    obtain ⟨c, hc, hb₁⟩ := bind_ok.1 hb₁
    obtain ⟨cs, hcs, h⟩ := ih h
    refine ⟨c :: cs, mapM_ok.2 (.cons hc (mapM_ok.1 hcs)), ?_⟩
    rw [List.foldlM_cons]
    exact bind_ok.2 ⟨b₁, hb₁, h⟩

theorem foldlM_of_prepared {γ : Type} {prepare : α → Except ε γ}
    {step : β → γ → Except ε β} {l : List α} {cs : List γ} (h : l.mapM prepare = .ok cs) (b : β) :
    l.foldlM (fun b a => do step b (← prepare a)) b = cs.foldlM step b := by
  replace h := mapM_ok.1 h
  induction h generalizing b with
  | nil => rfl
  | cons hc _ ih =>
    rw [List.foldlM_cons, List.foldlM_cons, hc]
    exact congrArg _ (funext ih)

end

-- ---------------------------------------------------------------------------
-- Runs
-- ---------------------------------------------------------------------------

namespace Run

variable {α β : Type} {x : Run α} {f : α → Run β} {j : Journal}

@[simp] theorem start_throw (e : Failure) (j : Journal) :
    (throw e : Run α).start j = (.error e, j) := rfl

theorem start_bind (x : Run α) (f : α → Run β) (j : Journal) :
    (x >>= f).start j =
      match x.start j with
      | (.ok a, k) => (f a).start k
      | (.error e, k) => (.error e, k) := by
  unfold start ExceptT.run StateT.run
  simp only [bind, ExceptT.bind, ExceptT.mk, StateT.bind, ExceptT.bindCont]
  cases x j with
  | mk r k => cases r <;> rfl

theorem start_tryCatch (x : Run α) (handle : Failure → Run α) (j : Journal) :
    (tryCatch x handle).start j =
      match x.start j with
      | (.ok a, k) => (.ok a, k)
      | (.error e, k) => (handle e).start k := by
  unfold start ExceptT.run StateT.run
  simp only [tryCatch, tryCatchThe, MonadExceptOf.tryCatch, ExceptT.tryCatch, ExceptT.mk, bind,
    StateT.bind]
  cases x j with
  | mk r k => cases r <;> rfl

/-- The run may end with this value. -/
def Returns (x : Run α) (a : α) : Prop := ∃ j, (x.start j).1 = .ok a

theorem returns_pure {a b : α} : (pure a : Run α).Returns b ↔ a = b :=
  ⟨fun ⟨_, h⟩ => pure_ok.1 h, fun h => ⟨{}, h ▸ rfl⟩⟩

theorem not_returns_throw {e : Failure} {a : α} : ¬ (throw e : Run α).Returns a := by
  simp [Returns]

theorem returns_ofExcept {r : Except Failure α} {a : α} : (ofExcept r).Returns a ↔ r = .ok a :=
  ⟨fun ⟨_, h⟩ => h, fun h => ⟨{}, h⟩⟩

theorem Returns.bind {b : β} (h : (x >>= f).Returns b) : ∃ a, x.Returns a ∧ (f a).Returns b := by
  obtain ⟨j, h⟩ := h
  rw [start_bind] at h
  cases hx : x.start j with
  | mk r k =>
    rw [hx] at h
    cases r with
    | error e => cases h
    | ok a => exact ⟨a, ⟨j, by rw [hx]⟩, ⟨k, h⟩⟩

theorem Returns.tryCatch {a : α} {handle : Failure → Run α} (h : (tryCatch x handle).Returns a) :
    x.Returns a ∨ ∃ e, (handle e).Returns a := by
  obtain ⟨j, h⟩ := h
  rw [start_tryCatch] at h
  cases hx : x.start j with
  | mk r k =>
    rw [hx] at h
    cases r with
    | error e => exact .inr ⟨e, k, h⟩
    | ok b => exact .inl ⟨j, by rw [hx]; exact h⟩

/-- The outcome does not depend on what was recorded before. -/
def Steady (x : Run α) : Prop := ∀ j k, (x.start j).1 = (x.start k).1

theorem Steady.returns_iff {a : α} (h : x.Steady) (j : Journal) :
    x.Returns a ↔ (x.start j).1 = .ok a :=
  ⟨fun ⟨k, hk⟩ => (h j k).trans hk, fun hj => ⟨j, hj⟩⟩

theorem Steady.returns_unique {a b : α} (h : x.Steady) (ha : x.Returns a) (hb : x.Returns b) :
    a = b :=
  Except.ok.inj (((h.returns_iff {}).1 ha).symm.trans ((h.returns_iff {}).1 hb))

theorem Steady.pure (a : α) : (Pure.pure a : Run α).Steady := fun _ _ => rfl

theorem Steady.throw (e : Failure) : (throw e : Run α).Steady := fun _ _ => rfl

theorem Steady.ofExcept (r : Except Failure α) : (ofExcept r).Steady := fun _ _ => rfl

theorem Steady.modify (g : Journal → Journal) : (modify g : Run Unit).Steady := fun _ _ => rfl

theorem Steady.bindTrace (trace : Option String) : (bindTrace trace).Steady := Steady.modify _

theorem Steady.report (level : Level) (message stage : String) (path : Option String)
    (more : List (String × Document)) : (report level message stage path more).Steady :=
  Steady.modify _

theorem outcome_bind (hf : ∀ a, (f a).Steady) (j k : Journal) :
    ((x >>= f).start j).1 = (x.start j).1 >>= fun a => ((f a).start k).1 := by
  rw [start_bind]
  cases x.start j with
  | mk r l =>
    cases r with
    | error e => rfl
    | ok a => exact hf a l k

theorem outcome_report {level : Level} {message stage : String} {path : Option String}
    {more : List (String × Document)} {f : Unit → Run β} (hf : (f ()).Steady) (j : Journal) :
    ((report level message stage path more >>= f).start j).1 = ((f ()).start j).1 := by
  rw [start_bind]
  exact hf _ j

theorem Steady.bind (hx : x.Steady) (hf : ∀ a, (f a).Steady) : (x >>= f).Steady := by
  intro j k
  rw [outcome_bind hf j j, outcome_bind hf k j, hx j k]

theorem Steady.tryCatch {handle : Failure → Run α} (hx : x.Steady)
    (hh : ∀ e, (handle e).Steady) : (tryCatch x handle).Steady := by
  intro j k
  have h := hx j k
  rw [start_tryCatch, start_tryCatch]
  cases hj : x.start j with
  | mk r j' =>
    cases hk : x.start k with
    | mk r' k' =>
      rw [hj, hk] at h
      cases (h : r = r')
      cases r with
      | ok a => rfl
      | error e => exact hh e j' k'

end Run

end LayeredConfig
