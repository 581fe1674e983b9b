import VestingDripStream.Lib.Run
import VestingDripStream.Lib.DueWork

/-! # Stream events over a WebSocket

`publishStreamEvent` and the connection handler of `wsStreams.ts`, for one recipient and one
connection, while Redis is available and the socket is open. A call of `publishStreamEvent` pushes
the event to the replay buffer and publishes it to the channel, in either order; a connection sends
a snapshot, reads the buffer and sends what is there, and only then subscribes to the channel.

An event is sent once if it is pushed before the buffer is read or published after the
subscription, and not both. `deliversAll_iff` says when that is so of all events, in order. -/

namespace VestingDripStream.Backend.WsStreams

open VestingDripStream.Lib.Run VestingDripStream.Lib.DueWork

/-- `EVENT_BUFFER_SIZE`. -/
def eventBufferSize : ℕ := 100

/-- How far the handler of the connection is. -/
inductive Phase
  | connecting
  | accepted
  | greeted
  | replayed
  | subscribed
  deriving DecidableEq, Repr

/-- The buffer has been read. -/
def Phase.HasRead : Phase → Prop
  | .replayed | .subscribed => True
  | .connecting | .accepted | .greeted => False

instance : DecidablePred Phase.HasRead := fun ph => by
  cases ph <;> unfold Phase.HasRead <;> infer_instance

/-- Redis, the calls of `publishStreamEvent` and the connection. The buffer has its newest event
first; the other lists are in order. `awaited` are the events whose calls came after the connection
was accepted, `early` those that had been pushed when it read the buffer. -/
structure World (E : Type) where
  buffer : List E := []
  called : List E := []
  pushed : List E := []
  published : List E := []
  phase : Phase := .connecting
  awaited : List E := []
  early : List E := []
  sent : List E := []

/-- The steps of `publishStreamEvent` for an event, and those of the connection. -/
inductive Action (E : Type)
  | call (e : E)
  | lPush (e : E)
  | lTrim (e : E)
  | publish (e : E)
  | accept
  | snapshot
  | replay
  | subscribe
  deriving DecidableEq

variable {E : Type}

/-- `lTrim(bufKey, 0, EVENT_BUFFER_SIZE - 1)`, and what `lRange` reads. -/
def trimmed (buffer : List E) : List E := buffer.take eventBufferSize

/-- One step. -/
def step (w : World E) : Action E → World E
  | .call e =>
    { w with
      called := w.called ++ [e]
      awaited := if w.phase = .connecting then w.awaited else w.awaited ++ [e] }
  | .lPush e => { w with buffer := e :: w.buffer, pushed := w.pushed ++ [e] }
  | .lTrim _ => { w with buffer := trimmed w.buffer }
  | .publish e =>
    { w with
      published := w.published ++ [e]
      -- only who has subscribed gets the message
      sent := if w.phase = .subscribed then w.sent ++ [e] else w.sent }
  | .accept => if w.phase = .connecting then { w with phase := .accepted } else w
  | .snapshot => if w.phase = .accepted then { w with phase := .greeted } else w
  | .replay =>
    if w.phase = .greeted then
      { w with
        phase := .replayed
        early := w.pushed
        sent := w.sent ++ (trimmed w.buffer).reverse }
    else w
  | .subscribe => if w.phase = .replayed then { w with phase := .subscribed } else w

/-- Every call is about another event, and pushes and publishes it once; the buffer is large enough
for all events up to the subscription. -/
def Legal (w : World E) : Action E → Prop
  | .call e => e ∉ w.called ∧ (w.phase ≠ .subscribed → w.called.length < eventBufferSize)
  | .lPush e => e ∈ w.called ∧ e ∉ w.pushed
  | .lTrim e => e ∈ w.pushed
  | .publish e => e ∈ w.called ∧ e ∉ w.published
  | _ => True

/-! ### What holds in every state -/

/-- What is sent of the buffer: what was read, or what would be. -/
def seen (w : World E) : List E := if w.phase.HasRead then w.sent else w.pushed

/-- What holds in every state. -/
structure Inv (w : World E) : Prop where
  nodup : w.awaited.Nodup
  awaited : ∀ e ∈ w.awaited, e ∈ w.called
  connecting : w.phase = .connecting → w.awaited = []
  size : w.phase ≠ .subscribed → w.called.length ≤ eventBufferSize
  pushed : w.pushed.Nodup ∧ ∀ e ∈ w.pushed, e ∈ w.called
  published : ∀ e ∈ w.published, e ∈ w.called
  sent : ∀ e ∈ w.sent, e ∈ w.called
  unread : ¬ w.phase.HasRead → w.buffer = w.pushed.reverse ∧ w.sent = []
  early : w.phase = .replayed → w.sent = w.early

theorem inv_init : Inv ({} : World E) where
  nodup := List.nodup_nil
  awaited := by simp
  connecting := fun _ => rfl
  size := fun _ => Nat.zero_le _
  pushed := ⟨List.nodup_nil, by simp⟩
  published := by simp
  sent := by simp
  unread := fun _ => ⟨rfl, rfl⟩
  early := nofun

variable {w : World E} {a : Action E} {e : E}

theorem mem_concat_of_mem {l : List E} (hl : ∀ d ∈ l, d ∈ w.called) (he : e ∈ w.called) :
    ∀ d ∈ l ++ [e], d ∈ w.called := fun d hd =>
  (List.mem_append.mp hd).elim (hl d) fun h => List.mem_singleton.mp h ▸ he

theorem nodup_concat {l : List E} (hl : l.Nodup) (he : e ∉ l) : (l ++ [e]).Nodup := by
  simpa using hl.concat he

/-- Trimming removes nothing before the subscription. -/
theorem Inv.trimmed_pushed (hI : Inv w) (h : w.phase ≠ .subscribed) :
    trimmed w.pushed.reverse = w.pushed.reverse := by
  have hle : w.pushed.length ≤ w.called.length := (hI.pushed.1.subperm hI.pushed.2).length_le
  have hsize := hI.size h
  exact List.take_of_length_le (by rw [List.length_reverse]; omega)

/-- What is replayed. -/
theorem Inv.replayed (hI : Inv w) (h : w.phase = .greeted) :
    w.sent ++ (trimmed w.buffer).reverse = w.pushed := by
  obtain ⟨hbuffer, hsent⟩ := hI.unread (by simp [h, Phase.HasRead])
  rw [hbuffer, hsent, hI.trimmed_pushed (by simp [h]), List.reverse_reverse, List.nil_append]

theorem Inv.mem_called_of_seen (hI : Inv w) (he : e ∈ seen w) : e ∈ w.called := by
  unfold seen at he
  split at he
  · exact hI.sent e he
  · exact hI.pushed.2 e he

theorem inv_call (hI : Inv w) (hl : Legal w (.call e)) : Inv (step w (.call e)) := by
  obtain ⟨hnew, hsize⟩ := hl
  have hmem : ∀ d ∈ w.called, d ∈ w.called ++ [e] := fun d hd => List.mem_append_left _ hd
  refine
    { nodup := ?_
      awaited := ?_
      connecting := fun h => ?_
      size := fun h => by simpa [step] using hsize h
      pushed := ⟨hI.pushed.1, fun d hd => hmem d (hI.pushed.2 d hd)⟩
      published := fun d hd => hmem d (hI.published d hd)
      sent := fun d hd => hmem d (hI.sent d hd)
      unread := hI.unread
      early := hI.early }
  · show (ite _ _ _ : List E).Nodup
    split
    · exact hI.nodup
    · exact nodup_concat hI.nodup fun h => hnew (hI.awaited e h)
  · show ∀ d ∈ (ite _ _ _ : List E), d ∈ w.called ++ [e]
    split
    · exact fun d hd => hmem d (hI.awaited d hd)
    · intro d hd
      rcases List.mem_append.mp hd with hd | hd
      · exact hmem d (hI.awaited d hd)
      · exact List.mem_append_right _ hd
  · have h' : w.phase = .connecting := h
    simpa [step, h'] using hI.connecting h'

theorem inv_lTrim (hI : Inv w) : Inv (step w (.lTrim e)) := by
  refine { hI with unread := fun h => ⟨?_, (hI.unread h).2⟩ }
  have hne : w.phase ≠ .subscribed := fun h' => h (by simp [step, h', Phase.HasRead])
  show trimmed w.buffer = _
  rw [(hI.unread h).1, hI.trimmed_pushed hne]
  rfl

theorem inv_publish (hI : Inv w) (hl : Legal w (.publish e)) : Inv (step w (.publish e)) := by
  refine
    { hI with
      published := mem_concat_of_mem hI.published hl.1
      sent := ?_
      unread := fun h => ⟨(hI.unread h).1, ?_⟩
      early := fun h => ?_ }
  · show ∀ d ∈ (ite _ _ _ : List E), d ∈ w.called
    split
    · exact mem_concat_of_mem hI.sent hl.1
    · exact hI.sent
  · have hne : w.phase ≠ .subscribed := fun h' => h (by simp [step, h', Phase.HasRead])
    simpa [step, hne] using (hI.unread h).2
  · have h' : w.phase = .replayed := h
    simpa [step, h'] using hI.early h'

/-- The steps of the connection before it reads the buffer. -/
theorem Inv.before_read (hI : Inv w) {ph : Phase} (h : ¬ w.phase.HasRead) (hph : ¬ ph.HasRead)
    (hne : ph ≠ .connecting) : Inv { w with phase := ph } :=
  { hI with
    connecting := fun h' => absurd h' hne
    size := fun _ => hI.size fun h' => h (h' ▸ trivial)
    unread := fun _ => hI.unread h
    early := fun h' => by
      have h'' : ph = .replayed := h'
      subst h''
      exact absurd trivial hph }

theorem inv_step (hI : Inv w) (hl : Legal w a) : Inv (step w a) := by
  cases a with
  | call e => exact inv_call hI hl
  | lPush e =>
    exact
      { hI with
        pushed := ⟨nodup_concat hI.pushed.1 hl.2, mem_concat_of_mem hI.pushed.2 hl.1⟩
        unread := fun h => ⟨by simp [step, (hI.unread h).1], (hI.unread h).2⟩ }
  | lTrim e => exact inv_lTrim hI
  | publish e => exact inv_publish hI hl
  | accept =>
    by_cases h : w.phase = .connecting
    · simp only [step, if_pos h]
      exact hI.before_read (by simp [h, Phase.HasRead]) not_false nofun
    · simpa only [step, if_neg h] using hI
  | snapshot =>
    by_cases h : w.phase = .accepted
    · simp only [step, if_pos h]
      exact hI.before_read (by simp [h, Phase.HasRead]) not_false nofun
    · simpa only [step, if_neg h] using hI
  | replay =>
    by_cases h : w.phase = .greeted
    · simp only [step, if_pos h, hI.replayed h]
      exact
        { hI with
          connecting := nofun
          size := fun _ => hI.size (by simp [h])
          sent := hI.pushed.2
          unread := fun h' => absurd trivial h'
          early := fun _ => rfl }
    · simpa only [step, if_neg h] using hI
  | subscribe =>
    by_cases h : w.phase = .replayed
    · simp only [step, if_pos h]
      exact
        { hI with
          connecting := nofun
          size := fun h' => absurd rfl h'
          unread := fun h' => absurd trivial h'
          early := nofun }
    · simpa only [step, if_neg h] using hI

/-! ### What is delivered -/

variable [DecidableEq E]

instance (w : World E) (a : Action E) : Decidable (Legal w a) := by
  unfold Legal; split <;> infer_instance

/-- The connection is set up, and all calls have returned. -/
def Finished (w : World E) : Prop :=
  w.phase = .subscribed ∧ ∀ e ∈ w.called, e ∈ w.pushed ∧ e ∈ w.published

instance (w : World E) : Decidable (Finished w) := by unfold Finished; infer_instance

/-- The events that were published since the connection was accepted were sent, each once and in
order. -/
def Delivered (w : World E) : Prop := w.sent.filter (· ∈ w.awaited) = w.awaited

instance (w : World E) : Decidable (Delivered w) := by unfold Delivered; infer_instance

/-- An awaited event is not pushed before the buffer is read while an earlier one is not pushed yet,
and not published after the subscription while an earlier one is not published yet. When the
connection subscribes, the awaited events that were published are those that had been pushed when
the buffer was read. -/
def InTurn (w : World E) : Action E → Prop
  | .lPush e => ¬ w.phase.HasRead → e ∈ w.awaited → ∀ d ∈ dueBefore w.awaited e, d ∈ w.pushed
  | .publish e =>
    w.phase = .subscribed → e ∈ w.awaited → ∀ d ∈ dueBefore w.awaited e, d ∈ w.published
  | .subscribe => w.phase = .replayed → ∀ e ∈ w.awaited, e ∈ w.published ↔ e ∈ w.early
  | _ => True

instance (w : World E) (a : Action E) : Decidable (InTurn w a) := by
  unfold InTurn; split <;> infer_instance

/-- Nothing is missing so far. -/
@[mk_iff] structure OnTrack (w : World E) : Prop where
  inOrder : InOrder w.awaited (seen w)
  either : w.phase = .subscribed → ∀ e ∈ w.awaited, e ∈ w.published ↔ e ∈ w.sent

theorem onTrack_init : OnTrack ({} : World E) where
  inOrder := inOrder_nil _
  either := nofun

theorem onTrack_call (hI : Inv w) (hl : Legal w (.call e)) :
    OnTrack (step w (.call e)) ↔ OnTrack w := by
  have hnew : e ∉ seen w := fun h => hl.1 (hI.mem_called_of_seen h)
  rw [onTrack_iff, onTrack_iff]
  refine and_congr ?_ (imp_congr_right fun h => ?_)
  · show InOrder (ite _ _ _) (seen w) ↔ _
    split
    · rfl
    · exact inOrder_due_concat hnew
  · have hsub : w.phase = .subscribed := h
    have he : e ∈ w.published ↔ e ∈ w.sent :=
      iff_of_false (fun h => hl.1 (hI.published e h)) fun h => hl.1 (hI.sent e h)
    simp [step, hsub, or_imp, forall_and, he]

theorem onTrack_lPush (hI : Inv w) (hl : Legal w (.lPush e)) :
    OnTrack (step w (.lPush e)) ↔ OnTrack w ∧ InTurn w (.lPush e) := by
  rw [onTrack_iff, onTrack_iff, and_right_comm]
  refine and_congr ?_ Iff.rfl
  by_cases h : w.phase.HasRead
  · simp [seen, step, InTurn, h]
  · simpa [seen, step, InTurn, h] using inOrder_done_concat hI.nodup fun _ => hl.2

/-- What is done in two places at once does not tell them apart. -/
theorem agree_concat {due done done' : List E} (h : e ∈ due → e ∉ done ∧ e ∉ done') :
    (∀ d ∈ due, d ∈ done ++ [e] ↔ d ∈ done' ++ [e]) ↔ ∀ d ∈ due, d ∈ done ↔ d ∈ done' := by
  refine forall₂_congr fun d hd => ?_
  by_cases hde : d = e
  · subst hde
    simp [(h hd).1, (h hd).2]
  · simp [hde]

theorem onTrack_publish (hI : Inv w) (hl : Legal w (.publish e)) :
    OnTrack (step w (.publish e)) ↔ OnTrack w ∧ InTurn w (.publish e) := by
  by_cases h : w.phase = .subscribed
  · have hread : w.phase.HasRead := by simp [h, Phase.HasRead]
    have hturn : InTurn w (.publish e) ↔
        (e ∈ w.awaited → ∀ d ∈ dueBefore w.awaited e, d ∈ w.published) := by simp [InTurn, h]
    have htrack : OnTrack w ↔
        InOrder w.awaited w.sent ∧ ∀ d ∈ w.awaited, d ∈ w.published ↔ d ∈ w.sent := by
      simp [onTrack_iff, seen, Phase.HasRead, h]
    have htrack' : OnTrack (step w (.publish e)) ↔ InOrder w.awaited (w.sent ++ [e]) ∧
        ∀ d ∈ w.awaited, d ∈ w.published ++ [e] ↔ d ∈ w.sent ++ [e] := by
      simp [onTrack_iff, seen, step, Phase.HasRead, h]
    rw [htrack, htrack', hturn]
    by_cases hnew : e ∈ w.awaited → e ∉ w.sent
    · rw [inOrder_done_concat hI.nodup hnew, agree_concat fun he => ⟨hl.2, hnew he⟩, and_right_comm]
      refine and_congr_right fun htrack => imp_congr_right fun he => forall₂_congr fun d hd => ?_
      exact (htrack.2 d (List.takeWhile_subset _ hd)).symm
    · -- it was replayed, and is sent a second time
      obtain ⟨he, hsent⟩ := Classical.not_imp.mp hnew
      have hsent := not_not.mp hsent
      refine iff_of_false (fun hafter => ?_) fun hbefore => ?_
      · exact hafter.1.not_mem_of_concat hI.nodup he hsent
      · exact hl.2 ((hbefore.1.2 e he).mpr hsent)
  · simp [onTrack_iff, seen, step, InTurn, h]

theorem onTrack_step (hI : Inv w) (hl : Legal w a) :
    OnTrack (step w a) ↔ OnTrack w ∧ InTurn w a := by
  cases a with
  | call e => simpa [InTurn] using onTrack_call hI hl
  | lPush e => exact onTrack_lPush hI hl
  | lTrim e => simp [onTrack_iff, seen, step, InTurn]
  | publish e => exact onTrack_publish hI hl
  | accept =>
    by_cases h : w.phase = .connecting <;> simp [onTrack_iff, seen, step, InTurn, Phase.HasRead, h]
  | snapshot =>
    by_cases h : w.phase = .accepted <;> simp [onTrack_iff, seen, step, InTurn, Phase.HasRead, h]
  | replay =>
    by_cases h : w.phase = .greeted
    · simp [onTrack_iff, seen, step, InTurn, Phase.HasRead, h, hI.replayed h]
    · simp [step, InTurn, h]
  | subscribe =>
    by_cases h : w.phase = .replayed
    · simp [onTrack_iff, seen, step, InTurn, Phase.HasRead, h, ← hI.early h]
    · simp [step, InTurn, h]

theorem delivered_iff (hI : Inv w) (hend : Finished w) : Delivered w ↔ OnTrack w := by
  obtain ⟨hsub, hall⟩ := hend
  have hseen : seen w = w.sent := by simp [seen, hsub, Phase.HasRead]
  constructor
  · intro h
    have hsent : ∀ d ∈ w.awaited, d ∈ w.sent := fun d hd =>
      List.mem_of_mem_filter (show d ∈ w.sent.filter (· ∈ w.awaited) from h.symm ▸ hd)
    refine ⟨?_, fun _ d hd => iff_of_true (hall d (hI.awaited d hd)).2 (hsent d hd)⟩
    rw [hseen]
    exact (inOrder_iff_of_subset hI.nodup hsent).mpr h
  · intro h
    have hsent : ∀ d ∈ w.awaited, d ∈ w.sent := fun d hd =>
      (h.either hsub d hd).mp (hall d (hI.awaited d hd)).2
    exact (inOrder_iff_of_subset hI.nodup hsent).mp (hseen ▸ h.inOrder)

/-- **Delivery to a connection.** When the connection is set up and all calls have returned, every
event called since the connection was accepted was sent once and in order exactly if every step was
taken in turn. -/
theorem deliversAll_iff {l : List (Action E)} (hl : AllSteps step Legal {} l)
    (hend : Finished (run step {} l)) :
    Delivered (run step {} l) ↔ AllSteps step InTurn {} l := by
  have hinv : Inv (run step {} l) := run_induct (fun _ _ => inv_step) inv_init hl
  rw [delivered_iff hinv hend, run_iff_allSteps (fun _ _ => inv_step) (fun _ _ => onTrack_step)
    inv_init hl]
  exact and_iff_right onTrack_init

/-- One event is replayed and one forwarded. -/
def oneEach : List (Action ℕ) :=
  [.accept, .call 0, .lPush 0, .publish 0, .lTrim 0, .snapshot, .replay, .subscribe, .call 1,
    .publish 1, .lPush 1, .lTrim 1]

theorem delivers_oneEach :
    Finished (run step {} oneEach) ∧ Delivered (run step {} oneEach) :=
  have hend : Finished (run step {} oneEach) := by decide +kernel
  ⟨hend, (deliversAll_iff (by decide +kernel) hend).mpr (by decide +kernel)⟩

/-- The event comes between the two steps of the connection. -/
def missed : List (Action ℕ) :=
  [.accept, .snapshot, .replay, .call 0, .publish 0, .lPush 0, .lTrim 0, .subscribe]

/-- The event is pushed before the buffer is read and published after the subscription. -/
def repeated : List (Action ℕ) :=
  [.accept, .snapshot, .call 0, .lPush 0, .lTrim 0, .replay, .subscribe, .publish 0]

/-- The event is not sent at all, or twice. -/
theorem not_deliversAll :
    (AllSteps step Legal {} missed ∧ Finished (run step {} missed) ∧
      (run step {} missed).sent = [] ∧ ¬ Delivered (run step {} missed)) ∧
    AllSteps step Legal {} repeated ∧ Finished (run step {} repeated) ∧
      (run step {} repeated).sent = [0, 0] ∧ ¬ Delivered (run step {} repeated) := by
  decide +kernel

end VestingDripStream.Backend.WsStreams
