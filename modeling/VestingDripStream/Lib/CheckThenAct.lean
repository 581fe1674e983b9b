import VestingDripStream.Lib.Run

/-! # Checking first and taking later

A resource may be used once. A user checks that it is there and is then *admitted*; it is *inside*
until it has taken the resource away. Nothing keeps a second user from being admitted in between.

`Lawful.atMostOne_iff`: at most one user is admitted along a run exactly if every user finds the
resource there and nobody inside when it is admitted. -/

namespace VestingDripStream.Lib.CheckThenAct

open VestingDripStream.Lib.Run

/-- What a system whose states are `σ` and whose steps are `α` does with a resource that the users
`ι` share. -/
structure Resource (σ α ι : Type*) where
  admitted : σ → ι → Prop
  inside : σ → ι → Prop
  taken : σ → Prop
  /-- The step admits the user. -/
  admits : σ → α → ι → Prop

variable {σ α ι : Type*}

namespace Resource

/-- Not two users are admitted. -/
def AtMostOne (R : Resource σ α ι) (s : σ) : Prop := ∀ i j, R.admitted s i → R.admitted s j → i = j

/-- A user is admitted by the step only if the resource is there and nobody is inside. -/
def Alone (R : Resource σ α ι) (s : σ) (a : α) : Prop :=
  ∀ i, R.admits s a i → ¬ R.taken s ∧ ∀ j, ¬ R.inside s j

/-- The laws of a resource, for the steps that satisfy `P` under the invariant `Inv`. -/
structure Lawful (R : Resource σ α ι) (step : σ → α → σ) (P : σ → α → Prop) (Inv : σ → Prop) :
    Prop where
  inv : ∀ s a, Inv s → P s a → Inv (step s a)
  /-- Nobody is admitted but by a step that does it, -/
  admitted_step : ∀ s a, Inv s → P s a → ∀ i, R.admitted (step s a) i →
    R.admitted s i ∨ R.admits s a i
  /-- which admits one new user and leaves the others. -/
  admits_new : ∀ s a, Inv s → P s a → ∀ i, R.admits s a i →
    R.admitted (step s a) i ∧ ¬ R.admitted s i
  admits_one : ∀ s a i j, R.admits s a i → R.admits s a j → i = j
  admits_keeps : ∀ s a i, Inv s → P s a → R.admits s a i → ∀ j, R.admitted s j →
    R.admitted (step s a) j
  inside_admitted : ∀ s j, Inv s → R.inside s j → R.admitted s j
  /-- Whoever is no longer inside has taken the resource. -/
  left_taken : ∀ s j, Inv s → R.admitted s j → R.inside s j ∨ R.taken s
  /-- A user that is admitted without a look at the resource is not the first one if it is taken. -/
  admits_taken : ∀ s a i, Inv s → P s a → R.admits s a i → R.taken s → ∃ j, R.admitted s j

variable {R : Resource σ α ι} {step : σ → α → σ} {P : σ → α → Prop} {Inv : σ → Prop}

/-- **One step** keeps "at most one" exactly if it admits nobody, or somebody alone. -/
theorem Lawful.atMostOne_step (hR : R.Lawful step P Inv) {s : σ} {a : α} (hI : Inv s)
    (hP : P s a) (hone : R.AtMostOne s) : R.AtMostOne (step s a) ↔ R.Alone s a := by
  constructor
  · intro h i hi
    have hnew := hR.admits_new s a hI hP i hi
    have hnobody : ∀ j, ¬ R.admitted s j := by
      intro j hj
      have hij := h i j hnew.1 (hR.admits_keeps s a i hI hP hi j hj)
      exact hnew.2 (hij ▸ hj)
    refine ⟨fun ht => ?_, fun j hj => hnobody j (hR.inside_admitted s j hI hj)⟩
    obtain ⟨j, hj⟩ := hR.admits_taken s a i hI hP hi ht
    exact hnobody j hj
  · intro h
    -- whoever is admitted by the step is the first one
    have hfirst : ∀ i j, R.admits s a i → ¬ R.admitted s j := by
      intro i j hi hj
      rcases hR.left_taken s j hI hj with hin | ht
      · exact (h i hi).2 j hin
      · exact (h i hi).1 ht
    intro i j hi hj
    rcases hR.admitted_step s a hI hP i hi with hi | hi <;>
      rcases hR.admitted_step s a hI hP j hj with hj | hj
    · exact hone i j hi hj
    · exact absurd hi (hfirst j i hj)
    · exact absurd hj (hfirst i j hi)
    · exact hR.admits_one s a i j hi hj

/-- **At most one user is admitted** along a run exactly if every one is admitted alone. -/
theorem Lawful.atMostOne_iff (hR : R.Lawful step P Inv) {s : σ} {l : List α} (hI : Inv s)
    (hl : AllSteps step P s l) (h0 : ∀ i, ¬ R.admitted s i) :
    AllStates step R.AtMostOne s l ↔ AllSteps step R.Alone s l :=
  allStates_iff_allSteps hR.inv (fun _ _ hI hP hone => hR.atMostOne_step hI hP hone) hI hl
    fun i _ hi _ => absurd hi (h0 i)

/-- Where the steps leave whoever is admitted, the end of a run tells about all of it. -/
theorem atMostOne_of_last (hinv : ∀ s a, Inv s → P s a → Inv (step s a))
    (hkeeps : ∀ s a, Inv s → P s a → ∀ j, R.admitted s j → R.admitted (step s a) j) :
    ∀ {s : σ} {l : List α}, Inv s → AllSteps step P s l → R.AtMostOne (run step s l) →
      AllStates step R.AtMostOne s l :=
  allStates_of_last hinv fun s a hI hP h i j hi hj =>
    h i j (hkeeps s a hI hP i hi) (hkeeps s a hI hP j hj)

end Resource

end VestingDripStream.Lib.CheckThenAct
