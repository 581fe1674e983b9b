import VestingDripStream.Lib.History
import Mathlib.Tactic

/-! # Runs of a deterministic system

A system is a step function `σ → α → σ`; a run is a list of labels. `AllStates` speaks about the
states a run passes through, `AllSteps` about its steps with the state they are taken in. An
invariant is carried from steps to states by `allStates_of_inv`, and `allStates_iff_allSteps` turns
an exact condition on one step into an exact condition on whole runs. `Since` speaks about the past
of a state: what was switched on and not off again. `StaysTrue` speaks about a property that is read
at any moment of a run whose labels carry times. -/

namespace VestingDripStream.Lib.Run

open VestingDripStream.Lib.History

variable {σ α : Type*} (step : σ → α → σ)

/-- The state at the end of a run. -/
def run (s : σ) (l : List α) : σ := l.foldl step s

/-- Every state of the run, the first one included, satisfies `Q`. -/
def AllStates (Q : σ → Prop) : σ → List α → Prop
  | s, [] => Q s
  | s, a :: l => Q s ∧ AllStates Q (step s a) l

/-- Every step of the run satisfies `P` in the state it is taken in. -/
def AllSteps (P : σ → α → Prop) : σ → List α → Prop
  | _, [] => True
  | s, a :: l => P s a ∧ AllSteps P (step s a) l

instance decidableAllStates (Q : σ → Prop) [DecidablePred Q] :
    (s : σ) → (l : List α) → Decidable (AllStates step Q s l)
  | s, [] => inferInstanceAs (Decidable (Q s))
  | s, a :: l =>
    have := decidableAllStates Q (step s a) l
    inferInstanceAs (Decidable (Q s ∧ AllStates step Q (step s a) l))

instance decidableAllSteps (P : σ → α → Prop) [∀ s a, Decidable (P s a)] :
    (s : σ) → (l : List α) → Decidable (AllSteps step P s l)
  | _, [] => inferInstanceAs (Decidable True)
  | s, a :: l =>
    have := decidableAllSteps P (step s a) l
    inferInstanceAs (Decidable (P s a ∧ AllSteps step P (step s a) l))

variable {step}

@[simp] theorem run_nil (s : σ) : run step s [] = s := rfl

@[simp] theorem run_cons (s : σ) (a : α) (l : List α) :
    run step s (a :: l) = run step (step s a) l := rfl

theorem run_append (s : σ) (l l' : List α) :
    run step s (l ++ l') = run step (run step s l) l' := List.foldl_append ..

theorem AllStates.first {Q : σ → Prop} {s : σ} {l : List α} (h : AllStates step Q s l) : Q s := by
  cases l with
  | nil => exact h
  | cons a l => exact h.1

theorem AllStates.last {Q : σ → Prop} {s : σ} {l : List α} (h : AllStates step Q s l) :
    Q (run step s l) := by
  induction l generalizing s with
  | nil => exact h
  | cons a l ih => exact ih h.2

theorem AllStates.imp {Q Q' : σ → Prop} (hQ : ∀ s, Q s → Q' s) :
    ∀ {s : σ} {l : List α}, AllStates step Q s l → AllStates step Q' s l
  | _, [], h => hQ _ h
  | _, _ :: _, h => ⟨hQ _ h.1, AllStates.imp hQ h.2⟩

theorem AllSteps.imp {P P' : σ → α → Prop} (hP : ∀ s a, P s a → P' s a) :
    ∀ {s : σ} {l : List α}, AllSteps step P s l → AllSteps step P' s l
  | _, [], _ => trivial
  | _, _ :: _, h => ⟨hP _ _ h.1, AllSteps.imp hP h.2⟩

theorem AllStates.and {Q Q' : σ → Prop} :
    ∀ {s : σ} {l : List α}, AllStates step Q s l → AllStates step Q' s l →
      AllStates step (fun s => Q s ∧ Q' s) s l
  | _, [], h, h' => ⟨h, h'⟩
  | _, _ :: _, h, h' => ⟨⟨h.1, h'.1⟩, AllStates.and h.2 h'.2⟩

theorem allStates_forall {κ : Type*} {Q : κ → σ → Prop} :
    ∀ {s : σ} {l : List α}, (∀ k, AllStates step (Q k) s l) →
      AllStates step (fun s => ∀ k, Q k s) s l
  | _, [], h => h
  | _, _ :: _, h => ⟨fun k => (h k).1, allStates_forall fun k => (h k).2⟩

theorem AllSteps.and {P P' : σ → α → Prop} :
    ∀ {s : σ} {l : List α}, AllSteps step P s l → AllSteps step P' s l →
      AllSteps step (fun s a => P s a ∧ P' s a) s l
  | _, [], _, _ => trivial
  | _, _ :: _, h, h' => ⟨⟨h.1, h'.1⟩, AllSteps.and h.2 h'.2⟩

theorem allSteps_append {P : σ → α → Prop} :
    ∀ {s : σ} {l l' : List α},
      AllSteps step P s (l ++ l') ↔ AllSteps step P s l ∧ AllSteps step P (run step s l) l'
  | _, [], _ => by simp [AllSteps]
  | s, a :: l, l' => by
    show P s a ∧ AllSteps step P (step s a) (l ++ l') ↔ _
    rw [allSteps_append, ← and_assoc]
    rfl

/-- The steps of a run, with what precedes them. -/
theorem allSteps_iff_forall_split {P : σ → α → Prop} {s : σ} {l : List α} :
    AllSteps step P s l ↔ ∀ pre a post, l = pre ++ a :: post → P (run step s pre) a := by
  constructor
  · rintro h pre a post rfl
    exact (allSteps_append.mp h).2.1
  · induction l generalizing s with
    | nil => exact fun _ => trivial
    | cons a l ih =>
      intro h
      refine ⟨h [] a l rfl, ih fun pre b post hl => ?_⟩
      subst hl
      exact h (a :: pre) b post rfl

/-- A condition on the labels alone. -/
theorem allSteps_of_forall {P : α → Prop} :
    ∀ {s : σ} {l : List α}, (∀ a ∈ l, P a) → AllSteps step (fun _ a => P a) s l
  | _, [], _ => trivial
  | _, a :: _, h => ⟨h a (by simp), allSteps_of_forall fun b hb => h b (by simp [hb])⟩

/-- **The invariant rule**: what the steps preserve holds in every state of the run. -/
theorem allStates_of_inv {P : σ → α → Prop} {Inv : σ → Prop}
    (hstep : ∀ s a, Inv s → P s a → Inv (step s a)) :
    ∀ {s : σ} {l : List α}, Inv s → AllSteps step P s l → AllStates step Inv s l
  | _, [], h, _ => h
  | _, _ :: _, h, hl => ⟨h, allStates_of_inv hstep (hstep _ _ h hl.1) hl.2⟩

/-- The invariant rule, read at the end of the run. -/
theorem run_induct {P : σ → α → Prop} {Inv : σ → Prop}
    (hstep : ∀ s a, Inv s → P s a → Inv (step s a)) {s : σ} {l : List α} (h : Inv s)
    (hl : AllSteps step P s l) : Inv (run step s l) :=
  (allStates_of_inv hstep h hl).last

/-- **Exact conditions.** If, under an invariant of the legal steps, a step keeps `Q` exactly when
it satisfies `C`, then a legal run keeps `Q` throughout exactly when all its steps satisfy `C`. -/
theorem allStates_iff_allSteps {P C : σ → α → Prop} {Inv Q : σ → Prop}
    (hinv : ∀ s a, Inv s → P s a → Inv (step s a))
    (hexact : ∀ s a, Inv s → P s a → Q s → (Q (step s a) ↔ C s a)) :
    ∀ {s : σ} {l : List α}, Inv s → AllSteps step P s l → Q s →
      (AllStates step Q s l ↔ AllSteps step C s l)
  | _, [], _, _, hQ => ⟨fun _ => trivial, fun _ => hQ⟩
  | s, a :: l, hI, hP, hQ => by
    have hI' := hinv s a hI hP.1
    constructor
    · rintro ⟨-, h⟩
      have hQ' := h.first
      exact ⟨(hexact s a hI hP.1 hQ).mp hQ',
        (allStates_iff_allSteps hinv hexact hI' hP.2 hQ').mp h⟩
    · rintro ⟨hC, h⟩
      have hQ' := (hexact s a hI hP.1 hQ).mpr hC
      exact ⟨hQ, (allStates_iff_allSteps hinv hexact hI' hP.2 hQ').mpr h⟩

/-- The invariant rule for what every step preserves. -/
theorem allStates_of_step {Inv : σ → Prop} (hstep : ∀ s a, Inv s → Inv (step s a)) {s : σ}
    {l : List α} (h : Inv s) : AllStates step Inv s l :=
  allStates_of_inv (P := fun _ _ => True) (fun s a hs _ => hstep s a hs) h
    (allSteps_of_forall fun _ _ => trivial)

/-- Exact conditions of steps that need no invariant. -/
theorem allStates_iff_of_step {C : σ → α → Prop} {Q : σ → Prop}
    (hexact : ∀ s a, Q s → (Q (step s a) ↔ C s a)) {s : σ} {l : List α} (hQ : Q s) :
    AllStates step Q s l ↔ AllSteps step C s l :=
  allStates_iff_allSteps (P := fun _ _ => True) (fun _ _ (_ : True) _ => trivial)
    (fun s a _ _ => hexact s a) trivial (allSteps_of_forall fun _ _ => trivial) hQ

/-- Exact conditions that carry the invariant: if `Inv` implies `Q`, the steps in `C` keep `Inv`, and
only they keep `Q`. -/
theorem allStates_iff_of_inv {C : σ → α → Prop} {Inv Q : σ → Prop} (hQ : ∀ s, Inv s → Q s)
    (hinv : ∀ s a, Inv s → C s a → Inv (step s a))
    (honly : ∀ s a, Inv s → Q (step s a) → C s a) {s : σ} {l : List α} (hI : Inv s) :
    AllStates step Q s l ↔ AllSteps step C s l := by
  constructor
  · intro h
    induction l generalizing s with
    | nil => trivial
    | cons a l ih =>
      have hC := honly s a hI h.2.first
      exact ⟨hC, ih (hinv s a hI hC) h.2⟩
  · exact fun h => (allStates_of_inv hinv hI h).imp hQ

/-- What no step can repair holds throughout if it holds at the end. -/
theorem allStates_of_last {P : σ → α → Prop} {Inv Q : σ → Prop}
    (hinv : ∀ s a, Inv s → P s a → Inv (step s a))
    (hback : ∀ s a, Inv s → P s a → Q (step s a) → Q s) :
    ∀ {s : σ} {l : List α}, Inv s → AllSteps step P s l → Q (run step s l) → AllStates step Q s l
  | _, [], _, _, h => h
  | s, a :: l, hI, hP, h => by
    have hrest := allStates_of_last hinv hback (hinv s a hI hP.1) hP.2 h
    exact ⟨hback s a hI hP.1 hrest.first, hrest⟩

/-- What a step keeps exactly if it satisfies `C`, and no step can repair, holds at the end of a run
exactly if it holds at the start and all steps satisfy `C`. -/
theorem run_iff_allSteps {P C : σ → α → Prop} {Inv Q : σ → Prop}
    (hinv : ∀ s a, Inv s → P s a → Inv (step s a))
    (hexact : ∀ s a, Inv s → P s a → (Q (step s a) ↔ Q s ∧ C s a)) :
    ∀ {s : σ} {l : List α}, Inv s → AllSteps step P s l →
      (Q (run step s l) ↔ Q s ∧ AllSteps step C s l)
  | _, [], _, _ => ⟨fun h => ⟨h, trivial⟩, And.left⟩
  | s, a :: l, hI, hP => by
    rw [run_cons, run_iff_allSteps hinv hexact (hinv s a hI hP.1) hP.2, hexact s a hI hP.1,
      and_assoc]
    rfl

/-- What every step establishes under an invariant that it keeps holds of every step. -/
theorem AllSteps.of_inv {P C : σ → α → Prop} {Inv : σ → Prop}
    (hstep : ∀ s a, Inv s → P s a → C s a ∧ Inv (step s a)) :
    ∀ {s : σ} {l : List α}, Inv s → AllSteps step P s l → AllSteps step C s l
  | _, [], _, _ => trivial
  | s, a :: _, hI, hP =>
    have h := hstep s a hI hP.1
    ⟨h.1, AllSteps.of_inv hstep h.2 hP.2⟩

/-- Two conditions that agree under an invariant of the legal steps agree along legal runs. -/
theorem allSteps_congr {P C C' : σ → α → Prop} {Inv : σ → Prop}
    (hinv : ∀ s a, Inv s → P s a → Inv (step s a))
    (hexact : ∀ s a, Inv s → P s a → (C s a ↔ C' s a)) :
    ∀ {s : σ} {l : List α}, Inv s → AllSteps step P s l →
      (AllSteps step C s l ↔ AllSteps step C' s l)
  | _, [], _, _ => Iff.rfl
  | s, a :: _, hI, hP =>
    and_congr (hexact s a hI hP.1) (allSteps_congr hinv hexact (hinv s a hI hP.1) hP.2)

/-! ### Parties -/

/-- A party after one of them has changed or joined: it is that one, or was there before. -/
theorem of_update_eq_some {ι κ : Type*} [DecidableEq ι] {m : ι → Option κ} {i j : ι} {a b : κ}
    (h : Function.update m i (some a) j = some b) : (j = i ∧ b = a) ∨ m j = some b := by
  by_cases hj : j = i
  · subst hj
    rw [Function.update_self, Option.some.injEq] at h
    exact Or.inl ⟨rfl, h.symm⟩
  · rw [Function.update_of_ne hj] at h
    exact Or.inr h

/-! ### What the steps emit -/

/-- The system with a record of what its steps emit. -/
def recording {β : Type*} (step : σ → α → σ) (emit : σ → α → List β) (s : σ × List β) (a : α) :
    σ × List β :=
  (step s.1 a, s.2 ++ emit s.1 a)

/-! ### The first change -/

/-- If a run changes `f`, then some step is the first to do so. -/
theorem exists_first_change {τ : Type*} {f : σ → τ} :
    ∀ {s : σ} {l : List α}, f (run step s l) ≠ f s →
      ∃ pre a post, l = pre ++ a :: post ∧ f (run step s pre) = f s ∧
        f (step (run step s pre) a) ≠ f s
  | s, [], h => absurd rfl h
  | s, a :: l, h => by
    by_cases hstep : f (step s a) = f s
    · have hrest : f (run step (step s a) l) ≠ f (step s a) := by rwa [hstep]
      obtain ⟨pre, b, post, rfl, hpre, hb⟩ := exists_first_change hrest
      rw [hstep] at hpre hb
      exact ⟨a :: pre, b, post, rfl, hpre, hb⟩
    · exact ⟨[], a, l, rfl, rfl, hstep⟩

/-! ### Being fixed -/

/-- What `T` fixes stays fixed along a run exactly if every step leaves it alone. -/
theorem fixed_iff_allSteps {τ : Type*} {f : σ → τ} {T : σ → Prop}
    (hT : ∀ s s', T s → f s' = f s → T s') {s : σ} {l : List α} :
    (∀ pre mid post, l = pre ++ mid ++ post → T (run step s pre) →
      f (run step s (pre ++ mid)) = f (run step s pre)) ↔
    AllSteps step (fun s a => T s → f (step s a) = f s) s l := by
  constructor
  · refine fun h => allSteps_iff_forall_split.mpr ?_
    rintro pre a post rfl hfix
    have hstep := h pre [a] post (by simp) hfix
    rwa [run_append] at hstep
  · rintro h pre mid post rfl hfix
    obtain ⟨hpre, -⟩ := allSteps_append.mp h
    obtain ⟨-, hmid⟩ := allSteps_append.mp hpre
    rw [run_append]
    generalize run step s pre = s1 at hfix hmid ⊢
    clear h hpre
    -- from the first state of the stretch on nothing moves
    induction mid generalizing s1 with
    | nil => rfl
    | cons a mid ih =>
      have hfirst := hmid.1 hfix
      rw [run_cons, ih (step s1 a) (hT s1 _ hfix hfirst) hmid.2]
      exact hfirst

/-! ### Histories -/

variable (step) in
/-- Some step of the run satisfies `A`, and no later one satisfies `R`. -/
def Since (A R : σ → α → Prop) (s : σ) (l : List α) : Prop :=
  ∃ pre a post, l = pre ++ a :: post ∧ A (run step s pre) a ∧
    AllSteps step (fun s a => ¬ R s a) (run step s (pre ++ [a])) post

theorem since_concat {A R : σ → α → Prop} {s : σ} {l : List α} {a : α} :
    Since step A R s (l ++ [a]) ↔
      A (run step s l) a ∨ (Since step A R s l ∧ ¬ R (run step s l) a) := by
  constructor
  · rintro ⟨pre, b, post, hl, hA, hR⟩
    rcases split_concat hl with ⟨rfl, rfl, -⟩ | ⟨post', rfl, rfl⟩
    · -- the step itself satisfies `A`
      exact Or.inl hA
    · rw [allSteps_append, ← run_append, List.append_assoc, List.singleton_append] at hR
      exact Or.inr ⟨⟨pre, b, post', rfl, hA, hR.1⟩, hR.2.1⟩
  · rintro (hA | ⟨⟨pre, b, post, rfl, hA, hR⟩, hlast⟩)
    · exact ⟨l, a, [], rfl, hA, trivial⟩
    · refine ⟨pre, b, post ++ [a], by simp, hA, ?_⟩
      rw [allSteps_append, ← run_append, List.append_assoc, List.singleton_append]
      exact ⟨hR, hlast, trivial⟩

/-- What the steps in `A` switch on and those in `R` switch off holds at the end of a run exactly if
it was switched on and not off again, for runs of legal steps under an invariant. -/
theorem iff_since_of_inv {P A R : σ → α → Prop} {Inv Q : σ → Prop}
    (hinv : ∀ s a, Inv s → P s a → Inv (step s a))
    (hstep : ∀ s a, Inv s → P s a → (Q (step s a) ↔ A s a ∨ (Q s ∧ ¬ R s a))) {s : σ} {l : List α}
    (hI : Inv s) (h0 : ¬ Q s) (hl : AllSteps step P s l) :
    Q (run step s l) ↔ Since step A R s l := by
  induction l using List.reverseRecOn with
  | nil =>
    refine ⟨fun h => absurd h h0, ?_⟩
    rintro ⟨pre, a, post, hl, -⟩
    exact absurd hl not_split_nil
  | append_singleton l a ih =>
    obtain ⟨hpre, hlast⟩ := allSteps_append.mp hl
    have hI' := run_induct hinv hI hpre
    rw [run_append, since_concat, ← ih hpre]
    exact hstep (run step s l) a hI' hlast.1

/-- The same for steps that need no invariant. -/
theorem iff_since {A R : σ → α → Prop} {Q : σ → Prop} {s : σ} {l : List α} (h0 : ¬ Q s)
    (hstep : ∀ s a, Q (step s a) ↔ A s a ∨ (Q s ∧ ¬ R s a)) :
    Q (run step s l) ↔ Since step A R s l :=
  iff_since_of_inv (P := fun _ _ => True) (fun _ _ (_ : True) _ => trivial)
    (fun s a _ _ => hstep s a) trivial h0 (allSteps_of_forall fun _ _ => trivial)

/-! ### Moments of a run

The labels carry times. What is read between two steps is read at any time between theirs. -/

section Moments

variable {τ : Type*} [LE τ] (time : α → τ)

/-- `t` is a time between the steps in `pre` and those in `post`. -/
def Between (pre post : List α) (t : τ) : Prop := (∀ a ∈ pre, time a ≤ t) ∧ ∀ a ∈ post, t ≤ time a

variable (step) in
/-- Once `V` was read, at any moment of the run, it is read at every later moment at which the state
is still `live`. -/
def StaysTrue (V : σ → τ → Prop) (live : σ → Prop) (s : σ) (l : List α) : Prop :=
  ∀ pre mid post, l = pre ++ mid ++ post → ∀ t t', Between time pre (mid ++ post) t →
    Between time (pre ++ mid) post t' → t ≤ t' → V (run step s pre) t →
    live (run step s (pre ++ mid)) → V (run step s (pre ++ mid)) t'

variable {time}

/-- Every time is a moment of a run in order of time. -/
theorem exists_between [Std.IsLinearPreorder τ] (t : τ) :
    ∀ {l : List α}, l.Pairwise (fun a b => time a ≤ time b) →
      ∃ pre post, l = pre ++ post ∧ Between time pre post t
  | [], _ => ⟨[], [], rfl, by simp, by simp⟩
  | a :: l, h => by
    obtain ⟨hfirst, hl⟩ := List.pairwise_cons.mp h
    rcases Std.le_total (a := time a) (b := t) with hle | hle
    · obtain ⟨pre, post, rfl, hb⟩ := exists_between t hl
      refine ⟨a :: pre, post, rfl, fun b hbm => ?_, hb.2⟩
      rcases List.mem_cons.mp hbm with rfl | hbm
      · exact hle
      · exact hb.1 b hbm
    · -- the run starts after `t`
      refine ⟨[], a :: l, rfl, by simp, fun b hbm => ?_⟩
      rcases List.mem_cons.mp hbm with rfl | hbm
      · exact hle
      · exact Std.le_trans hle (hfirst b hbm)

theorem between_of_sorted [Std.IsPreorder τ] {pre post : List α} {a : α}
    (h : (pre ++ a :: post).Pairwise fun a b => time a ≤ time b) :
    Between time pre (a :: post) (time a) ∧ Between time (pre ++ [a]) post (time a) := by
  obtain ⟨-, hpost, hcross⟩ := List.pairwise_append.mp h
  have hpost := (List.pairwise_cons.mp hpost).1
  have hpre : ∀ b ∈ pre, time b ≤ time a := fun b hb => hcross b hb a List.mem_cons_self
  refine ⟨⟨hpre, ?_⟩, ?_, hpost⟩
  · intro b hb
    rcases List.mem_cons.mp hb with rfl | hb
    · exact Std.le_refl _
    · exact hpost b hb
  · intro b hb
    rcases List.mem_append.mp hb with hb | hb
    · exact hpre b hb
    · rw [List.mem_singleton.mp hb]
      exact Std.le_refl _

/-- What every step keeps that leaves the state live is kept through a stretch of the run. -/
theorem keeps_through {V : σ → τ → Prop} {live Inv : σ → Prop}
    (hmono : ∀ s t t', V s t → t ≤ t' → V s t') (hinv : ∀ s a, Inv s → Inv (step s a))
    (hdead : ∀ s a, Inv s → live (step s a) → live s) :
    ∀ {mid : List α} {s : σ} {t t' : τ}, Inv s →
      AllSteps step (fun s a => V s (time a) → live (step s a) → V (step s a) (time a)) s mid →
      mid.Pairwise (fun a b => time a ≤ time b) → (∀ a ∈ mid, t ≤ time a) →
      (∀ a ∈ mid, time a ≤ t') → t ≤ t' → V s t → live (run step s mid) → V (run step s mid) t'
  | [], s, t, t', _, _, _, _, _, htt, hV, _ => hmono s t t' hV htt
  | a :: mid, s, t, t', hI, hsteps, hsorted, hlo, hhi, _, hV, hlive => by
    have hI' := hinv s a hI
    -- the state is live after the first step, as it is at the end
    have hback : ∀ {l : List α} {s : σ}, Inv s → live (run step s l) → live s := by
      intro l
      induction l with
      | nil => exact fun _ h => h
      | cons b l ih => exact fun hs h => hdead _ _ hs (ih (hinv _ _ hs) h)
    obtain ⟨hfirst, hsorted⟩ := List.pairwise_cons.mp hsorted
    rw [run_cons] at hlive ⊢
    have hVa := hsteps.1 (hmono s t _ hV (hlo a List.mem_cons_self)) (hback hI' hlive)
    exact keeps_through hmono hinv hdead hI' hsteps.2 hsorted hfirst
      (fun b hb => hhi b (List.mem_cons_of_mem a hb)) (hhi a List.mem_cons_self) hVa hlive

/-- **Reading at any moment.** Let `V` stay true while time passes, and let nothing become live
again. In a run in order of time `V` then stays true exactly if every step that finds it true keeps
it or ends the life of the state. -/
theorem staysTrue_iff [Std.IsPreorder τ] {V : σ → τ → Prop} {live Inv : σ → Prop}
    (hmono : ∀ s t t', V s t → t ≤ t' → V s t') (hinv : ∀ s a, Inv s → Inv (step s a))
    (hdead : ∀ s a, Inv s → live (step s a) → live s) {s : σ} {l : List α} (hI : Inv s)
    (hsorted : l.Pairwise fun a b => time a ≤ time b) :
    StaysTrue step time V live s l ↔
      AllSteps step (fun s a => V s (time a) → live (step s a) → V (step s a) (time a)) s l := by
  constructor
  · intro h
    refine allSteps_iff_forall_split.mpr ?_
    rintro pre a post rfl hV hlive
    obtain ⟨hb, hb'⟩ := between_of_sorted hsorted
    have hstays := h pre [a] post (by simp) (time a) (time a) hb hb' (Std.le_refl _) hV
    rw [run_append] at hstays
    exact hstays hlive
  · rintro h pre mid post rfl t t' hb hb' htt hV hlive
    rw [run_append] at hlive ⊢
    rw [List.append_assoc] at h hsorted
    have hI' : Inv (run step s pre) := (allStates_of_step hinv hI).last
    have hmid := (allSteps_append.mp (allSteps_append.mp h).2).1
    have hsorted := (List.pairwise_append.mp (List.pairwise_append.mp hsorted).2.1).1
    exact keeps_through hmono hinv hdead hI' hmid hsorted
      (fun a ha => hb.2 a (List.mem_append_left _ ha))
      (fun a ha => hb'.1 a (List.mem_append_right _ ha)) htt hV hlive

end Moments

end VestingDripStream.Lib.Run
