import LayeredConfig.Proofs.Outcome

/-!
# How computations may fail

`FailsOnly P x` says that every failure of `x` is one that `P` admits. What is put together from
computations fails only as its parts do.
-/

namespace LayeredConfig

section

variable {ε ε' α β : Type} {P : ε → Prop}

def FailsOnly (P : ε → Prop) (x : Except ε α) : Prop := ∀ e, x = .error e → P e

@[simp] theorem failsOnly_ok {a : α} : FailsOnly P (.ok a) := nofun

@[simp] theorem failsOnly_pure {a : α} : FailsOnly P (pure a) := nofun

@[simp] theorem failsOnly_error {e : ε} : FailsOnly P (.error e : Except ε α) ↔ P e :=
  ⟨fun h => h e rfl, fun h _ he => Except.error.inj he ▸ h⟩

@[simp] theorem failsOnly_throw {e : ε} : FailsOnly P (throw e : Except ε α) ↔ P e :=
  failsOnly_error

theorem FailsOnly.imp {Q : ε → Prop} {x : Except ε α} (h : FailsOnly P x) (hPQ : ∀ e, P e → Q e) :
    FailsOnly Q x :=
  fun e he => hPQ e (h e he)

theorem FailsOnly.bind_of {x : Except ε α} {f : α → Except ε β} (hx : FailsOnly P x)
    (hf : ∀ a, x = .ok a → FailsOnly P (f a)) : FailsOnly P (x >>= f) := by
  cases x with
  | error e => exact failsOnly_error.2 (hx e rfl)
  | ok a => exact hf a rfl

theorem FailsOnly.bind {x : Except ε α} {f : α → Except ε β} (hx : FailsOnly P x)
    (hf : ∀ a, FailsOnly P (f a)) : FailsOnly P (x >>= f) :=
  hx.bind_of fun a _ => hf a

theorem FailsOnly.ite {c : Prop} {_ : Decidable c} {x y : Except ε α} (hx : FailsOnly P x)
    (hy : FailsOnly P y) : FailsOnly P (if c then x else y) := by
  split
  · exact hx
  · exact hy

theorem FailsOnly.check {c : Prop} {_ : Decidable c} {x : Except ε PUnit} {k : PUnit → Except ε β}
    (hx : FailsOnly P x) (hk : FailsOnly P (k ⟨⟩)) :
    FailsOnly P (if c then x >>= k else k ⟨⟩) :=
  .ite (hx.bind fun _ => hk) hk

theorem FailsOnly.map {x : Except ε α} (hx : FailsOnly P x) (f : α → β) :
    FailsOnly P (x.map f) := by
  cases x with
  | error e => exact failsOnly_error.2 (hx e rfl)
  | ok a => exact failsOnly_ok

theorem failsOnly_mapError {x : Except ε' α} {f : ε' → ε} :
    FailsOnly P (x.mapError f) ↔ FailsOnly (fun e => P (f e)) x := by
  cases x with
  | error e =>
    exact (failsOnly_error (P := P)).trans (failsOnly_error (P := fun e => P (f e))).symm
  | ok a => exact iff_of_true failsOnly_ok failsOnly_ok

theorem FailsOnly.mapM {f : α → Except ε β} (hf : ∀ a, FailsOnly P (f a)) (l : List α) :
    FailsOnly P (l.mapM f) := by
  induction l with
  | nil => exact failsOnly_pure
  | cons a l ih =>
    rw [List.mapM_cons]
    exact (hf a).bind fun b => ih.bind fun bs => failsOnly_pure

theorem FailsOnly.foldlM_of_mem {f : β → α → Except ε β} {l : List α}
    (hf : ∀ a ∈ l, ∀ b, FailsOnly P (f b a)) (b : β) : FailsOnly P (l.foldlM f b) := by
  induction l generalizing b with
  | nil => exact failsOnly_pure
  | cons a l ih =>
    obtain ⟨ha, hl⟩ := List.forall_mem_cons.1 hf
    rw [List.foldlM_cons]
    exact (ha b).bind fun c => ih hl c

theorem FailsOnly.foldlM {f : β → α → Except ε β} (hf : ∀ b a, FailsOnly P (f b a)) (l : List α)
    (b : β) : FailsOnly P (l.foldlM f b) :=
  .foldlM_of_mem (fun a _ b => hf b a) b

end

-- ---------------------------------------------------------------------------
-- Computations with a state
-- ---------------------------------------------------------------------------

section

variable {σ ε α β : Type} {I : σ → Prop} {P : ε → Prop}

/-- From a state with the invariant `I`, every failure is one that `P` admits, and success leaves
the invariant in place. -/
def FailsOnlyIn (I : σ → Prop) (P : ε → Prop) (x : StateT σ (Except ε) α) : Prop :=
  ∀ s, I s → FailsOnly P (x.run s) ∧ ∀ r, x.run s = .ok r → I r.2

theorem failsOnlyIn_pure {a : α} : FailsOnlyIn I P (pure a : StateT σ (Except ε) α) := by
  refine fun s hs => ⟨failsOnly_pure, fun r hr => ?_⟩
  cases pure_ok.1 hr
  exact hs

theorem failsOnlyIn_get : FailsOnlyIn I P (get : StateT σ (Except ε) σ) := by
  refine fun s hs => ⟨failsOnly_pure, fun r hr => ?_⟩
  cases pure_ok.1 hr
  exact hs

theorem failsOnlyIn_modify {f : σ → σ} (hf : ∀ s, I s → I (f s)) :
    FailsOnlyIn I P (modify f : StateT σ (Except ε) PUnit) := by
  refine fun s hs => ⟨failsOnly_pure, fun r hr => ?_⟩
  cases pure_ok.1 hr
  exact hf s hs

theorem failsOnlyIn_modifyGet {f : σ → α × σ} (hf : ∀ s, I s → I (f s).2) :
    FailsOnlyIn I P (modifyGet f : StateT σ (Except ε) α) := by
  refine fun s hs => ⟨failsOnly_pure, fun r hr => ?_⟩
  cases pure_ok.1 hr
  exact hf s hs

theorem failsOnlyIn_throw {e : ε} (h : P e) : FailsOnlyIn I P (throw e : StateT σ (Except ε) α) :=
  fun _ _ => ⟨failsOnly_error.2 h, nofun⟩

theorem FailsOnlyIn.imp {Q : ε → Prop} {x : StateT σ (Except ε) α} (hx : FailsOnlyIn I P x)
    (hPQ : ∀ e, P e → Q e) : FailsOnlyIn I Q x :=
  fun s hs => ⟨(hx s hs).1.imp hPQ, (hx s hs).2⟩

theorem FailsOnlyIn.bind {x : StateT σ (Except ε) α} {f : α → StateT σ (Except ε) β}
    (hx : FailsOnlyIn I P x) (hf : ∀ a, FailsOnlyIn I P (f a)) : FailsOnlyIn I P (x >>= f) := by
  intro s hs
  obtain ⟨hfail, hkeep⟩ := hx s hs
  rw [StateT.run_bind]
  refine ⟨hfail.bind_of fun r hr => (hf r.1 r.2 (hkeep r hr)).1, fun r hr => ?_⟩
  obtain ⟨m, hm, hr⟩ := bind_ok.1 hr
  exact (hf m.1 m.2 (hkeep m hm)).2 r hr

theorem FailsOnlyIn.ite {c : Prop} {_ : Decidable c} {x y : StateT σ (Except ε) α}
    (hx : FailsOnlyIn I P x) (hy : FailsOnlyIn I P y) : FailsOnlyIn I P (if c then x else y) := by
  split
  · exact hx
  · exact hy

theorem FailsOnlyIn.check {c : Prop} {_ : Decidable c} {x : StateT σ (Except ε) PUnit}
    {k : PUnit → StateT σ (Except ε) β} (hx : FailsOnlyIn I P x) (hk : FailsOnlyIn I P (k ⟨⟩)) :
    FailsOnlyIn I P (if c then x >>= k else k ⟨⟩) :=
  .ite (hx.bind fun _ => hk) hk

theorem FailsOnlyIn.map {x : StateT σ (Except ε) α} (hx : FailsOnlyIn I P x) (f : α → β) :
    FailsOnlyIn I P (f <$> x) := by
  rw [← bind_pure_comp]
  exact hx.bind fun _ => failsOnlyIn_pure

theorem FailsOnlyIn.discard {x : StateT σ (Except ε) α} (hx : FailsOnlyIn I P x) :
    FailsOnlyIn I P (discard x) :=
  hx.map _

theorem FailsOnlyIn.mapM {f : α → StateT σ (Except ε) β} (hf : ∀ a, FailsOnlyIn I P (f a))
    (l : List α) : FailsOnlyIn I P (l.mapM f) := by
  induction l with
  | nil => exact failsOnlyIn_pure
  | cons a l ih =>
    rw [List.mapM_cons]
    exact (hf a).bind fun b => ih.bind fun bs => failsOnlyIn_pure

theorem FailsOnlyIn.forM {f : α → StateT σ (Except ε) PUnit} (hf : ∀ a, FailsOnlyIn I P (f a))
    (l : List α) : FailsOnlyIn I P (l.forM f) := by
  induction l with
  | nil => exact failsOnlyIn_pure
  | cons a l ih => exact (hf a).bind fun _ => ih

end

-- ---------------------------------------------------------------------------
-- How computations with a state end
-- ---------------------------------------------------------------------------

section

variable {σ ε α β : Type} {s : σ} {Q : α → σ → Prop} {R : β → σ → Prop}

/-- Begun in the state `s`, the computation ends as `Q` says, unless it fails. -/
def Ends (x : StateT σ (Except ε) α) (s : σ) (Q : α → σ → Prop) : Prop :=
  ∀ r, x.run s = .ok r → Q r.1 r.2

theorem ends_pure {a : α} (h : Q a s) : Ends (pure a : StateT σ (Except ε) α) s Q := by
  intro r hr
  cases pure_ok.1 hr
  exact h

theorem ends_get_bind {f : σ → StateT σ (Except ε) β} (h : Ends (f s) s R) :
    Ends (get >>= f) s R :=
  h

theorem ends_modify {f : σ → σ} {Q : PUnit → σ → Prop} (h : Q ⟨⟩ (f s)) :
    Ends (modify f : StateT σ (Except ε) PUnit) s Q := by
  intro r hr
  cases pure_ok.1 hr
  exact h

theorem ends_modifyGet {f : σ → α × σ} (h : Q (f s).1 (f s).2) :
    Ends (modifyGet f : StateT σ (Except ε) α) s Q := by
  intro r hr
  cases pure_ok.1 hr
  exact h

theorem ends_throw {e : ε} : Ends (throw e : StateT σ (Except ε) α) s Q := nofun

theorem Ends.bind {x : StateT σ (Except ε) α} {f : α → StateT σ (Except ε) β} (hx : Ends x s Q)
    (hf : ∀ a t, Q a t → Ends (f a) t R) : Ends (x >>= f) s R := by
  intro r hr
  rw [StateT.run_bind] at hr
  obtain ⟨m, hm, hr⟩ := bind_ok.1 hr
  exact hf m.1 m.2 (hx m hm) r hr

theorem ends_check {c : Prop} {_ : Decidable c} {e : ε} {k : PUnit → StateT σ (Except ε) β}
    (hk : ¬ c → Ends (k ⟨⟩) s R) : Ends (if c then throw e >>= k else k ⟨⟩) s R := by
  split
  · exact ends_throw
  · exact hk ‹_›

theorem Ends.imp {Q' : α → σ → Prop} {x : StateT σ (Except ε) α} (hx : Ends x s Q)
    (h : ∀ a t, Q a t → Q' a t) : Ends x s Q' :=
  fun r hr => h r.1 r.2 (hx r hr)

theorem Ends.and {Q' : α → σ → Prop} {x : StateT σ (Except ε) α} (hx : Ends x s Q)
    (hx' : Ends x s Q') : Ends x s fun a t => Q a t ∧ Q' a t :=
  fun r hr => ⟨hx r hr, hx' r hr⟩

theorem FailsOnlyIn.ends {I : σ → Prop} {P : ε → Prop} {x : StateT σ (Except ε) α}
    (hx : FailsOnlyIn I P x) (hs : I s) : Ends x s fun _ => I :=
  (hx s hs).2

theorem FailsOnly.run_bind {P : ε → Prop} {x : StateT σ (Except ε) α}
    {f : α → StateT σ (Except ε) β} (hfail : FailsOnly P (x.run s)) (hx : Ends x s Q)
    (hf : ∀ a t, Q a t → FailsOnly P ((f a).run t)) : FailsOnly P ((x >>= f).run s) := by
  rw [StateT.run_bind]
  exact hfail.bind_of fun r hr => hf r.1 r.2 (hx r hr)

theorem ends_mapM {S : σ → Prop} {B : α → β → Prop} {f : α → StateT σ (Except ε) β} {l : List α}
    (hf : ∀ a ∈ l, ∀ s, S s → Ends (f a) s fun b t => S t ∧ B a b) (hs : S s) :
    Ends (l.mapM f) s fun bs t => S t ∧ List.Forall₂ B l bs := by
  induction l generalizing s with
  | nil => exact ends_pure ⟨hs, .nil⟩
  | cons a l ih =>
    rw [List.mapM_cons]
    refine (hf a List.mem_cons_self s hs).bind fun b t ht => ?_
    refine (ih (fun a ha => hf a (List.mem_cons_of_mem _ ha)) ht.1).bind fun bs u hu => ?_
    exact ends_pure ⟨hu.1, .cons ht.2 hu.2⟩

theorem ends_forM {S : σ → Prop} {f : α → StateT σ (Except ε) PUnit}
    (hf : ∀ a s, S s → Ends (f a) s fun _ => S) (l : List α) (hs : S s) :
    Ends (l.forM f) s fun _ => S := by
  induction l generalizing s with
  | nil => exact ends_pure hs
  | cons a l ih => exact (hf a s hs).bind fun _ t ht => ih ht

end

end LayeredConfig
