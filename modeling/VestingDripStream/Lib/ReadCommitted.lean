import VestingDripStream.Lib.Client
import VestingDripStream.Lib.Run

/-! # Sessions under read committed isolation with row locks

Several clients work on one server, statement by statement. A session in a transaction keeps the
effects of its statements in a log: it sees the committed state with its own log applied, nobody
else sees the log, and its end publishes or drops the whole of it. Every effect writes or locks one
row, named by its key; the first effect on a row locks the row until the session ends, and a
statement that needs a row locked by another session waits. A session outside a transaction
publishes each statement at once.

`committed_rel` is the rule for what concerns a single row: a reflexive and transitive relation
that every statement establishes between the row before it and after it holds between the committed
row at the start and at the end of any run. -/

namespace VestingDripStream.Lib.ReadCommitted

open VestingDripStream.Lib.Client VestingDripStream.Lib.Run

variable {σ S E Eff κ ι J : Type} {Reply : S → Type}

/-- A session: what it was started for, how many statements it has sent, what it still has to do,
and the effects that are not published yet. -/
structure Session (S E Eff J : Type) (Reply : S → Type) where
  job : J
  sent : ℕ
  rest : Program S Reply E Unit
  log : List Eff

/-- The committed state, the open sessions, and which session holds the lock of which row. -/
structure World (σ S E Eff κ ι J : Type) (Reply : S → Type) where
  committed : σ
  session : ι → Option (Session S E Eff J Reply)
  holder : κ → Option ι

/-- What can happen next: a session starts, sends its next statement, ends after its last one, or
is lost with its connection. -/
inductive Action (ι J : Type)
  | start (i : ι) (j : J)
  | send (i : ι)
  | finish (i : ι)
  | lose (i : ι)

/-- What the sessions work on: the server, the row an effect is about, the program of a job, and
whether it runs in a transaction. -/
structure Site (σ S E Eff κ J : Type) (Reply : S → Type) extends Server σ S E Eff Reply where
  key : Eff → κ
  program : J → Program S Reply E Unit
  inTransaction : J → Bool

namespace World

variable [DecidableEq ι] [DecidableEq κ]

/-- Nobody is connected. -/
def idle (st : σ) : World σ S E Eff κ ι J Reply := ⟨st, fun _ => none, fun _ => none⟩

/-- The session is over: its log is gone and its locks are free. -/
def close (w : World σ S E Eff κ ι J Reply) (i : ι) : World σ S E Eff κ ι J Reply where
  committed := w.committed
  session := Function.update w.session i none
  holder := fun k => if w.holder k = some i then none else w.holder k

/-- The session goes on. -/
def put (w : World σ S E Eff κ ι J Reply) (i : ι) (s : Session S E Eff J Reply) :
    World σ S E Eff κ ι J Reply :=
  { w with session := Function.update w.session i (some s) }

/-- The session locks the rows. -/
def lock (w : World σ S E Eff κ ι J Reply) (i : ι) (ks : List κ) : World σ S E Eff κ ι J Reply :=
  { w with holder := fun k => if k ∈ ks then some i else w.holder k }

/-- No other session holds the row. -/
def Free (w : World σ S E Eff κ ι J Reply) (i : ι) (k : κ) : Prop :=
  w.holder k = none ∨ w.holder k = some i

instance (w : World σ S E Eff κ ι J Reply) (i : ι) (k : κ) : Decidable (w.Free i k) := by
  unfold Free; infer_instance

/-- The job that the step commits. -/
def committedBy (w : World σ S E Eff κ ι J Reply) : Action ι J → List J
  | .finish i =>
    match w.session i with
    | some s =>
      match s.rest with
      | .done _ => [s.job]
      | _ => []
    | none => []
  | _ => []

end World

namespace Site

variable [DecidableEq ι] [DecidableEq κ] (site : Site σ S E Eff κ J Reply)

/-- What a session sees: the committed state with its own log. -/
def view (w : World σ S E Eff κ ι J Reply) (s : Session S E Eff J Reply) : σ :=
  site.applyAll w.committed s.log

/-- The statement was executed with the effects `es`, and `rest` is to be done. -/
def executed (w : World σ S E Eff κ ι J Reply) (i : ι) (s : Session S E Eff J Reply)
    (es : List Eff) (rest : Program S Reply E Unit) : World σ S E Eff κ ι J Reply :=
  if site.inTransaction s.job then
    (w.lock i (es.map site.key)).put i ⟨s.job, s.sent + 1, rest, s.log ++ es⟩
  else
    { w with committed := site.applyAll w.committed es }.put i ⟨s.job, s.sent + 1, rest, s.log⟩

/-- The session sends its next statement: it waits for locked rows, and a rejected statement ends
it. -/
def sendNext (w : World σ S E Eff κ ι J Reply) (i : ι) (s : Session S E Eff J Reply) :
    World σ S E Eff κ ι J Reply :=
  match s.rest with
  | .query q next =>
    match site.exec q (site.view w s) with
    | .error _ => w.close i
    | .ok (es, r) => if ∀ k ∈ es.map site.key, w.Free i k then executed site w i s es (next r) else w
  | _ => w

/-- The session ends: it publishes its log, or drops it if it throws. -/
def finish (w : World σ S E Eff κ ι J Reply) (i : ι) (s : Session S E Eff J Reply) :
    World σ S E Eff κ ι J Reply :=
  match s.rest with
  | .done _ => { w with committed := site.view w s }.close i
  | .throw _ => w.close i
  | .query _ _ => w

/-- One step. -/
def step (w : World σ S E Eff κ ι J Reply) : Action ι J → World σ S E Eff κ ι J Reply
  | .start i j =>
    match w.session i with
    | none => w.put i ⟨j, 0, site.program j, []⟩
    | some _ => w
  | .send i =>
    match w.session i with
    | some s => sendNext site w i s
    | none => w
  | .finish i =>
    match w.session i with
    | some s => finish site w i s
    | none => w
  | .lose i => w.close i

/-- What a step can do. -/
inductive Moves (w : World σ S E Eff κ ι J Reply) :
    Action ι J → World σ S E Eff κ ι J Reply → Prop
  | stays (a : Action ι J) : Moves w a w
  | starts (i : ι) (j : J) (hi : w.session i = none) :
      Moves w (.start i j) (w.put i ⟨j, 0, site.program j, []⟩)
  | closes (a : Action ι J) (i : ι) : Moves w a (w.close i)
  | executes (i : ι) (s : Session S E Eff J Reply) (q : S)
      (next : Reply q → Program S Reply E Unit) (es : List Eff) (r : Reply q)
      (hi : w.session i = some s) (hq : s.rest = .query q next)
      (hx : site.exec q (site.view w s) = .ok (es, r)) (hfree : ∀ k ∈ es.map site.key, w.Free i k) :
      Moves w (.send i) (executed site w i s es (next r))
  | commits (i : ι) (s : Session S E Eff J Reply) (u : Unit) (hi : w.session i = some s)
      (hd : s.rest = .done u) : Moves w (.finish i) ({ w with committed := site.view w s }.close i)

theorem moves_step (w : World σ S E Eff κ ι J Reply) (a : Action ι J) :
    Moves site w a (step site w a) := by
  cases a with
  | start i j =>
    cases hi : w.session i with
    | none => simpa only [step, hi] using Moves.starts i j hi
    | some s => simpa only [step, hi] using Moves.stays _
  | lose i => exact Moves.closes _ i
  | send i =>
    cases hi : w.session i with
    | none => simpa only [step, hi] using Moves.stays _
    | some s =>
      simp only [step, hi]
      unfold sendNext
      split
      · next q next hq =>
        split
        · exact Moves.closes _ i
        · next es r hx =>
          split_ifs with hfree
          · exact Moves.executes i s q next es r hi hq hx hfree
          · exact Moves.stays _
      · exact Moves.stays _
  | finish i =>
    cases hi : w.session i with
    | none => simpa only [step, hi] using Moves.stays _
    | some s =>
      simp only [step, hi]
      unfold finish
      split
      · next u hd => exact Moves.commits i s u hi hd
      · exact Moves.closes _ i
      · exact Moves.stays _

omit [DecidableEq ι] [DecidableEq κ] in
/-- A step that commits is the end of a session after its last statement. -/
theorem committedBy_cases (w : World σ S E Eff κ ι J Reply) (a : Action ι J) :
    w.committedBy a = [] ∨ ∃ i s u, a = .finish i ∧ w.session i = some s ∧ s.rest = .done u ∧
      w.committedBy a = [s.job] := by
  cases a with
  | start i j => exact Or.inl rfl
  | send i => exact Or.inl rfl
  | lose i => exact Or.inl rfl
  | finish i =>
    unfold World.committedBy
    dsimp only
    split
    · next s hi =>
      split
      · next u hd => exact Or.inr ⟨i, s, u, rfl, hi, hd, rfl⟩
      · exact Or.inl rfl
    · exact Or.inl rfl

theorem step_finish {w : World σ S E Eff κ ι J Reply} {i : ι} {s : Session S E Eff J Reply}
    {u : Unit} (hi : w.session i = some s) (hd : s.rest = .done u) :
    step site w (.finish i) = { w with committed := site.view w s }.close i := by
  simp only [step, hi, finish, hd]

/-! ### Locks -/

/-- Every row in a log is locked by its session, and only transactions have a log. -/
structure Locked (w : World σ S E Eff κ ι J Reply) : Prop where
  held : ∀ i s, w.session i = some s → ∀ e ∈ s.log, w.holder (site.key e) = some i
  auto : ∀ i s, w.session i = some s → site.inTransaction s.job = false → s.log = []

variable {site} {w w' : World σ S E Eff κ ι J Reply}

omit [DecidableEq ι] [DecidableEq κ] in
theorem locked_idle (st : σ) : Locked site (World.idle st : World σ S E Eff κ ι J Reply) :=
  ⟨fun i s h => by simp [World.idle] at h, fun i s h => by simp [World.idle] at h⟩

omit [DecidableEq κ] in
@[simp] theorem session_close (i j : ι) :
    (w.close i).session j = if j = i then none else w.session j := by
  simp only [World.close, Function.update_apply]

omit [DecidableEq κ] in
@[simp] theorem session_put (i j : ι) (s : Session S E Eff J Reply) :
    (w.put i s).session j = if j = i then some s else w.session j := by
  simp only [World.put, Function.update_apply]

omit [DecidableEq κ] in
theorem Locked.close (h : Locked site w) (i : ι) : Locked site (w.close i) := by
  refine ⟨fun j s hj e he => ?_, fun j s hj => ?_⟩
  · rw [session_close] at hj
    split_ifs at hj with hji
    have hheld := h.held j s hj e he
    simp [World.close, hheld, hji]
  · rw [session_close] at hj
    split_ifs at hj with hji
    exact h.auto j s hj

theorem Locked.executed (h : Locked site w) {i : ι} {s : Session S E Eff J Reply}
    (hi : w.session i = some s) {es : List Eff} (hfree : ∀ k ∈ es.map site.key, w.Free i k)
    (rest : Program S Reply E Unit) : Locked site (Site.executed site w i s es rest) := by
  unfold Site.executed
  split_ifs with htx
  · refine ⟨fun j t hj e he => ?_, fun j t hj => ?_⟩
    · rw [session_put] at hj
      split_ifs at hj with hji
      · cases hj
        subst hji
        rcases List.mem_append.mp he with he | he
        · simp [World.put, World.lock, h.held j s hi e he]
        · simp only [World.put, World.lock]
          rw [if_pos (List.mem_map_of_mem he)]
      · have hheld := h.held j t hj e he
        simp only [World.put, World.lock]
        split_ifs with hmem
        · -- the statement waits for rows of other sessions
          rcases hfree _ hmem with hf | hf
          · rw [hf] at hheld; cases hheld
          · rw [hf] at hheld; exact hheld
        · exact hheld
    · rw [session_put] at hj
      split_ifs at hj with hji
      · cases hj
        intro hauto
        rw [htx] at hauto
        cases hauto
      · exact h.auto j t hj
  · refine ⟨fun j t hj e he => ?_, fun j t hj => ?_⟩
    · rw [session_put] at hj
      split_ifs at hj with hji
      · cases hj
        exact h.held j s (hji ▸ hi) e he
      · exact h.held j t hj e he
    · rw [session_put] at hj
      split_ifs at hj with hji
      · cases hj
        exact h.auto j s (hji ▸ hi)
      · exact h.auto j t hj

theorem Locked.step (h : Locked site w) {a : Action ι J} (hm : Moves site w a w') :
    Locked site w' := by
  cases hm with
  | stays a => exact h
  | starts i j hi =>
    refine ⟨fun k s hk e he => ?_, fun k s hk => ?_⟩
    · rw [session_put] at hk
      split_ifs at hk with hki
      · cases hk; simp at he
      · exact h.held k s hk e he
    · rw [session_put] at hk
      split_ifs at hk with hki
      · cases hk; exact fun _ => rfl
      · exact h.auto k s hk
  | closes a i => exact h.close i
  | executes i s q next es r hi hq hx hfree => exact h.executed hi hfree (next r)
  | commits i s u hi hd =>
    have hc := h.close i
    exact ⟨hc.held, hc.auto⟩

omit [DecidableEq ι] [DecidableEq κ] in
/-- A row in the log of a session is not free to another one. -/
theorem Locked.apart (h : Locked site w) {i j : ι} {t : Session S E Eff J Reply}
    (hj : w.session j = some t) (hji : j ≠ i) {e : Eff} (he : e ∈ t.log) {k : κ}
    (hk : w.Free i k) : site.key e ≠ k := by
  intro hek
  have hheld := h.held j t hj e he
  rw [hek] at hheld
  rcases hk with hnone | hsome
  · rw [hnone] at hheld; cases hheld
  · rw [hsome] at hheld
    exact hji (Option.some.inj hheld).symm

omit [DecidableEq ι] [DecidableEq κ] in
/-- A row is in the log of one session only. -/
theorem Locked.unique (h : Locked site w) {i j : ι} {s t : Session S E Eff J Reply}
    (hi : w.session i = some s) (hj : w.session j = some t) {e e' : Eff} (he : e ∈ s.log)
    (he' : e' ∈ t.log) (hkey : site.key e = site.key e') : i = j := by
  have hholder := h.held i s hi e he
  rw [hkey, h.held j t hj e' he'] at hholder
  exact (Option.some.inj hholder).symm

/-! ### What concerns one row -/

variable (site) in
/-- `f` reads only the row `k`: effects on other rows do not change it, and what an effect does to
it depends on nothing else. -/
structure Reads {ρ : Type} (f : σ → ρ) (k : κ) : Prop where
  other : ∀ st e, site.key e ≠ k → f (site.apply st e) = f st
  same : ∀ st st' e, f st = f st' → f (site.apply st e) = f (site.apply st' e)

variable {ρ : Type} {f : σ → ρ} {k : κ}

omit [DecidableEq κ] in
theorem Reads.applyAll_other (hf : Reads site f k) {es : List Eff} {st : σ}
    (h : ∀ e ∈ es, site.key e ≠ k) : f (site.applyAll st es) = f st := by
  induction es generalizing st with
  | nil => rfl
  | cons e es ih =>
    rw [Server.applyAll_cons, ih fun e' he' => h e' (List.mem_cons_of_mem e he')]
    exact hf.other st e (h e List.mem_cons_self)

omit [DecidableEq κ] in
theorem Reads.applyAll_congr (hf : Reads site f k) (es : List Eff) {st st' : σ}
    (h : f st = f st') : f (site.applyAll st es) = f (site.applyAll st' es) := by
  induction es generalizing st st' with
  | nil => exact h
  | cons e es ih => exact ih (hf.same st st' e h)

variable {R : ρ → ρ → Prop}

omit [DecidableEq ι] in
/-- A session stays ahead of the committed row when another one publishes effects on rows that are
free to it: either the row is locked by the session and not touched, or the session sees it as it is
published. -/
theorem Reads.ahead_of_published (hf : Reads site f k) (hrefl : ∀ x, R x x) (h : Locked site w)
    {i j : ι} {t : Session S E Eff J Reply} (hj : w.session j = some t) (hji : j ≠ i)
    {es : List Eff} (hes : ∀ e ∈ es, w.Free i (site.key e))
    (ha : R (f w.committed) (f (site.view w t))) :
    R (f (site.applyAll w.committed es))
      (f (site.applyAll (site.applyAll w.committed es) t.log)) := by
  by_cases hk : ∃ e ∈ t.log, site.key e = k
  · obtain ⟨e, he, hek⟩ := hk
    have hsame : f (site.applyAll w.committed es) = f w.committed :=
      hf.applyAll_other fun e' he' hk' => h.apart hj hji he (hes e' he') (hek.trans hk'.symm)
    rw [hsame, hf.applyAll_congr t.log hsame]
    exact ha
  · push Not at hk
    rw [hf.applyAll_other hk]
    exact hrefl _

variable (site f R) in
/-- Every session sees the row ahead of its committed state. -/
def Ahead (w : World σ S E Eff κ ι J Reply) : Prop :=
  ∀ i s, w.session i = some s → R (f w.committed) (f (site.view w s))

/-- **One step and one row.** -/
theorem Moves.rel (hf : Reads site f k) (hrefl : ∀ x, R x x)
    (htrans : ∀ x y z, R x y → R y z → R x z)
    (hstmt : ∀ q st es r, site.exec q st = .ok (es, r) → R (f st) (f (site.applyAll st es)))
    (hl : Locked site w) (ha : Ahead site f R w) {a : Action ι J} (hm : Moves site w a w') :
    R (f w.committed) (f w'.committed) ∧ Ahead site f R w' := by
  cases hm with
  | stays a => exact ⟨hrefl _, ha⟩
  | starts i j hi =>
    refine ⟨hrefl _, fun l s hs => ?_⟩
    rw [session_put] at hs
    split_ifs at hs
    · cases hs; exact hrefl _
    · exact ha l s hs
  | closes a i =>
    refine ⟨hrefl _, fun l s hs => ?_⟩
    rw [session_close] at hs
    split_ifs at hs
    exact ha l s hs
  | executes i s q next es r hi hq hx hfree =>
    have hstep := hstmt q _ es r hx
    unfold executed
    split_ifs with htx
    · -- the effects go to the log
      refine ⟨hrefl _, fun l t ht => ?_⟩
      rw [session_put] at ht
      split_ifs at ht
      · cases ht
        refine htrans _ _ _ (ha i s hi) ?_
        show R _ (f (site.applyAll w.committed (s.log ++ es)))
        rw [Server.applyAll_append]
        exact hstep
      · exact ha l t ht
    · -- the effects are published at once
      have hlog := hl.auto i s hi (by simpa using htx)
      have hpub : R (f w.committed) (f (site.applyAll w.committed es)) := by
        unfold view at hstep
        rwa [hlog] at hstep
      refine ⟨hpub, fun l t ht => ?_⟩
      rw [session_put] at ht
      split_ifs at ht with hli
      · cases ht
        show R _ (f (site.applyAll (site.applyAll w.committed es) s.log))
        rw [hlog]
        exact hrefl _
      · exact hf.ahead_of_published hrefl hl ht hli (fun e he => hfree _ (List.mem_map_of_mem he))
          (ha l t ht)
  | commits i s u hi hd =>
    refine ⟨ha i s hi, fun l t ht => ?_⟩
    rw [session_close] at ht
    split_ifs at ht with hli
    exact hf.ahead_of_published hrefl hl ht hli (fun e he => Or.inr (hl.held i s hi e he))
      (ha l t ht)

/-- **The rule for one row.** What every statement does to the row, in any number of steps, is what
happens to the committed row in a run. -/
theorem committed_rel (hf : Reads site f k) (hrefl : ∀ x, R x x)
    (htrans : ∀ x y z, R x y → R y z → R x z)
    (hstmt : ∀ q st es r, site.exec q st = .ok (es, r) → R (f st) (f (site.applyAll st es)))
    (hl : Locked site w) (ha : Ahead site f R w) (as : List (Action ι J)) :
    R (f w.committed) (f (run site.step w as).committed) := by
  induction as generalizing w with
  | nil => exact hrefl _
  | cons a as ih =>
    have hm := moves_step site w a
    obtain ⟨hstep, ha'⟩ := hm.rel hf hrefl htrans hstmt hl ha
    exact htrans _ _ _ hstep (ih (hl.step hm) ha')

theorem locked_run (hl : Locked site w) (as : List (Action ι J)) :
    Locked site (run site.step w as) :=
  (allStates_of_step (fun w a hw => hw.step (moves_step site w a)) hl).last

theorem ahead_run (hf : Reads site f k) (hrefl : ∀ x, R x x)
    (htrans : ∀ x y z, R x y → R y z → R x z)
    (hstmt : ∀ q st es r, site.exec q st = .ok (es, r) → R (f st) (f (site.applyAll st es)))
    (hl : Locked site w) (ha : Ahead site f R w) (as : List (Action ι J)) :
    Ahead site f R (run site.step w as) := by
  induction as generalizing w with
  | nil => exact ha
  | cons a as ih =>
    have hm := moves_step site w a
    exact ih (hl.step hm) (hm.rel hf hrefl htrans hstmt hl ha).2

omit [DecidableEq ι] [DecidableEq κ] in
theorem ahead_idle (st : σ) : Ahead site f R (World.idle st : World σ S E Eff κ ι J Reply) :=
  fun i s h => by simp [World.idle] at h

/-! ### A session that runs alone -/

/-- Only the session `i` is open, and only it holds locks. -/
structure Alone (i : ι) (w : World σ S E Eff κ ι J Reply) : Prop where
  session : ∀ j, j ≠ i → w.session j = none
  holder : ∀ k, w.Free i k

omit [DecidableEq κ] in
theorem Alone.close {i : ι} (h : Alone i w) : w.close i = World.idle w.committed := by
  have hs : (w.close i).session = fun _ => none := by
    funext j
    rw [session_close]
    split_ifs with hji
    · rfl
    · exact h.session j hji
  have hh : (w.close i).holder = fun _ => none := by
    funext k
    rcases h.holder k with hk | hk <;> simp [World.close, hk]
  unfold World.idle
  rw [← hs, ← hh]
  rfl

theorem Alone.executed {i : ι} (h : Alone i w) {s : Session S E Eff J Reply}
    (hj : site.inTransaction s.job = true) (es : List Eff) (rest : Program S Reply E Unit) :
    Alone i (Site.executed site w i s es rest) := by
  unfold Site.executed
  rw [if_pos hj]
  refine ⟨fun l hl => ?_, fun k => ?_⟩
  · rw [session_put, if_neg hl]
    exact h.session l hl
  · show (if k ∈ es.map site.key then some i else w.holder k) = none ∨
      (if k ∈ es.map site.key then some i else w.holder k) = some i
    split_ifs
    · exact Or.inr rfl
    · exact h.holder k

/-- From any point of its program on, by induction on what is left of it. -/
theorem run_alone_from {i : ι} {j : J} (hj : site.inTransaction j = true)
    (p : Program S Reply E Unit) (n : ℕ) (log : List Eff) (h : Alone i w)
    (hi : w.session i = some ⟨j, n, p, log⟩) :
    ∃ m, run site.step w (List.replicate m (.send i) ++ [.finish i]) =
      World.idle (match site.transact p (site.applyAll w.committed log) with
        | .ok (_, st) => st
        | .error _ => w.committed) := by
  induction p generalizing w n log with
  | done u =>
    refine ⟨0, ?_⟩
    have hstep : step site w (.finish i) =
        World.close { w with committed := site.applyAll w.committed log } i := by
      simp only [step, hi]
      rfl
    have halone : Alone i { w with committed := site.applyAll w.committed log } :=
      ⟨h.session, h.holder⟩
    rw [List.replicate_zero, List.nil_append, run_cons, run_nil, hstep, halone.close]
    rfl
  | throw e =>
    refine ⟨0, ?_⟩
    have hstep : step site w (.finish i) = w.close i := by
      simp only [step, hi]
      rfl
    rw [List.replicate_zero, List.nil_append, run_cons, run_nil, hstep, h.close]
    rfl
  | query q next ih =>
    cases hx : site.exec q (site.applyAll w.committed log) with
    | error e =>
      have hstep : step site w (.send i) = w.close i := by
        simp only [step, hi, sendNext, view, hx]
      refine ⟨1, ?_⟩
      rw [List.replicate_one, List.singleton_append, run_cons, hstep, h.close,
        Server.transact_query_of_error hx]
      rfl
    | ok p =>
      obtain ⟨es, r⟩ := p
      have hstep : step site w (.send i) =
          executed site w i ⟨j, n, .query q next, log⟩ es (next r) := by
        simp only [step, hi, sendNext, view, hx]
        rw [if_pos fun k _ => h.holder k]
      have hsession : (executed site w i ⟨j, n, .query q next, log⟩ es (next r)).session i =
          some ⟨j, n + 1, next r, log ++ es⟩ := by
        unfold executed
        rw [if_pos hj, session_put, if_pos rfl]
      have halone : Alone i (executed site w i ⟨j, n, .query q next, log⟩ es (next r)) :=
        h.executed hj es (next r)
      obtain ⟨m, hm⟩ := ih r (n + 1) (log ++ es) halone hsession
      refine ⟨m + 1, ?_⟩
      have hcommitted : (executed site w i ⟨j, n, .query q next, log⟩ es (next r)).committed =
          w.committed := by
        unfold executed
        rw [if_pos hj]
        rfl
      rw [List.replicate_succ, List.cons_append, run_cons, hstep, hm, hcommitted,
        Server.transact_query_of_ok hx, Server.applyAll_append]

/-- **Refinement**: a transaction that is not disturbed does what its program does as one step. -/
theorem run_alone {j : J} (hj : site.inTransaction j = true) (i : ι) (st : σ) :
    ∃ m, run site.step (World.idle st : World σ S E Eff κ ι J Reply)
      (.start i j :: (List.replicate m (.send i) ++ [.finish i])) =
        World.idle (Transaction.commit (site.transact (site.program j)) st) := by
  have halone : Alone i ((World.idle st : World σ S E Eff κ ι J Reply).put i
      ⟨j, 0, site.program j, []⟩) := by
    refine ⟨fun l hl => ?_, fun k => Or.inl rfl⟩
    rw [session_put, if_neg hl]
    rfl
  obtain ⟨m, hm⟩ := run_alone_from hj (site.program j) 0 [] halone (by
    rw [session_put, if_pos rfl])
  refine ⟨m, hm.trans ?_⟩
  show World.idle (match site.transact (site.program j) st with
    | .ok (_, st) => st
    | .error _ => st) = _
  unfold Transaction.commit
  cases site.transact (site.program j) st <;> rfl

end Site

end VestingDripStream.Lib.ReadCommitted
