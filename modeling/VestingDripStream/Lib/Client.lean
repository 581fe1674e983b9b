import VestingDripStream.Lib.Transaction

/-! # Clients of a database

A client is a program that sends statements to a server and goes on with the replies, until it
returns or throws. The server answers a statement on a state with the effects it has on single rows
and with a reply, or rejects it. `Server.transact` runs a program alone on the server as one
transaction. A statement that is rejected ends the transaction, as does a throw. `Program.Tracks` is
a rule of postconditions for programs whose server is not the only one to change the state. -/

namespace VestingDripStream.Lib.Client

open VestingDripStream.Lib.Transaction

/-- A client program: statements `S` with replies `Reply`, errors `E` and a result. -/
inductive Program (S : Type) (Reply : S → Type) (E α : Type) : Type
  | done (a : α)
  | throw (e : E)
  | query (s : S) (next : Reply s → Program S Reply E α)

/-- A database server: what a statement does on a state, and what an effect does to it. -/
structure Server (σ S E Eff : Type) (Reply : S → Type) where
  exec : (s : S) → σ → Except E (List Eff × Reply s)
  apply : σ → Eff → σ

variable {σ S E Eff α β : Type} {Reply : S → Type}

namespace Program

/-- The program, and then `f` on what it returns. -/
def bind : Program S Reply E α → (α → Program S Reply E β) → Program S Reply E β
  | .done a, f => f a
  | .throw e, _ => .throw e
  | .query s next, f => .query s fun r => (next r).bind f

instance : Monad (Program S Reply E) where
  pure := .done
  bind := Program.bind

/-- One statement. -/
def send (s : S) : Program S Reply E (Reply s) := .query s .done

@[simp] theorem pure_eq (a : α) : (pure a : Program S Reply E α) = .done a := rfl

@[simp] theorem done_bind (a : α) (f : α → Program S Reply E β) : (.done a >>= f) = f a := rfl

@[simp] theorem throw_bind (e : E) (f : α → Program S Reply E β) :
    ((.throw e : Program S Reply E α) >>= f) = .throw e := rfl

@[simp] theorem query_bind (s : S) (next : Reply s → Program S Reply E α)
    (f : α → Program S Reply E β) : (.query s next >>= f) = .query s fun r => next r >>= f := rfl

@[simp] theorem send_bind (s : S) (f : Reply s → Program S Reply E β) :
    ((send s : Program S Reply E (Reply s)) >>= f) = .query s f := rfl

/-! #### Errors and larger servers -/

/-- The program, with `h` for what it throws. A statement that is rejected is not caught. -/
def catchThrow : Program S Reply E α → (E → Program S Reply E α) → Program S Reply E α
  | .done a, _ => .done a
  | .throw e, h => h e
  | .query s next, h => .query s fun r => (next r).catchThrow h

/-- The program as one of a server with more statements. -/
def lift {S' E' : Type} {Reply' : S' → Type} (f : S → S') (g : ∀ s, Reply' (f s) → Reply s)
    (e : E → E') : Program S Reply E α → Program S' Reply' E' α
  | .done a => .done a
  | .throw err => .throw (e err)
  | .query s next => .query (f s) fun r => (next (g s r)).lift f g e

end Program

namespace Program

variable {G : Type} (allow : G → (s : S) → Reply s → Option G)

/-- A rule of postconditions. `allow` says which statement may be sent in a state `G` that the
program does not see, and what that state is after the reply. Whatever the replies, the program
sends only statements that are allowed, and if it returns, `Q` holds. -/
def Tracks (Q : α → G → Prop) : Program S Reply E α → G → Prop
  | .done a, g => Q a g
  | .throw _, _ => True
  | .query s next, g => ∀ r, ∃ g', allow g s r = some g' ∧ Tracks Q (next r) g'

variable {allow}

theorem tracks_bind {Q : β → G → Prop} {p : Program S Reply E α} {f : α → Program S Reply E β}
    {g : G} :
    Tracks allow Q (p >>= f) g ↔ Tracks allow (fun a g => Tracks allow Q (f a) g) p g := by
  induction p generalizing g with
  | done a => rfl
  | throw e => rfl
  | query s next ih => exact forall_congr' fun r => exists_congr fun g' => and_congr_right' (ih r)

theorem Tracks.imp {Q Q' : α → G → Prop} (hQ : ∀ a g, Q a g → Q' a g)
    {p : Program S Reply E α} {g : G} (h : Tracks allow Q p g) : Tracks allow Q' p g := by
  induction p generalizing g with
  | done a => exact hQ a g h
  | throw e => trivial
  | query s next ih =>
    intro r
    obtain ⟨g', ha, hr⟩ := h r
    exact ⟨g', ha, ih r hr⟩

end Program

namespace Server

variable (srv : Server σ S E Eff Reply)

/-- The state after a list of effects. -/
def applyAll (st : σ) (es : List Eff) : σ := es.foldl srv.apply st

@[simp] theorem applyAll_nil (st : σ) : srv.applyAll st [] = st := rfl

@[simp] theorem applyAll_cons (st : σ) (e : Eff) (es : List Eff) :
    srv.applyAll st (e :: es) = srv.applyAll (srv.apply st e) es := rfl

theorem applyAll_append (st : σ) (es es' : List Eff) :
    srv.applyAll st (es ++ es') = srv.applyAll (srv.applyAll st es) es' := List.foldl_append ..

/-- One statement of a transaction that runs alone. -/
def statement (s : S) : Tx σ E (Reply s) := fun st =>
  match srv.exec s st with
  | .ok (es, r) => .ok (r, srv.applyAll st es)
  | .error e => .error e

/-- The program as one transaction that runs alone. -/
def transact : Program S Reply E α → Tx σ E α
  | .done a => pure a
  | .throw e => fun _ => .error e
  | .query s next => srv.statement s >>= fun r => transact (next r)

variable {srv}

theorem statement_ok {s : S} {st st' : σ} {r : Reply s} :
    srv.statement s st = .ok (r, st') ↔
      ∃ es, srv.exec s st = .ok (es, r) ∧ srv.applyAll st es = st' := by
  unfold statement
  cases h : srv.exec s st with
  | error e => simp
  | ok p =>
    obtain ⟨es, r'⟩ := p
    simp only [Except.ok.injEq, Prod.mk.injEq]
    constructor
    · rintro ⟨rfl, rfl⟩
      exact ⟨es, ⟨rfl, rfl⟩, rfl⟩
    · rintro ⟨es', ⟨rfl, rfl⟩, rfl⟩
      exact ⟨rfl, rfl⟩

theorem transact_done (a : α) : srv.transact (.done a : Program S Reply E α) = pure a := rfl

theorem transact_query (s : S) (next : Reply s → Program S Reply E α) :
    srv.transact (.query s next) = srv.statement s >>= fun r => srv.transact (next r) := rfl

theorem transact_query_of_ok {s : S} {next : Reply s → Program S Reply E α} {st : σ} {es : List Eff}
    {r : Reply s} (h : srv.exec s st = .ok (es, r)) :
    srv.transact (.query s next) st = srv.transact (next r) (srv.applyAll st es) := by
  show (StateT.bind (srv.statement s) (fun r => srv.transact (next r)) st : Except E _) = _
  unfold StateT.bind statement
  rw [h]
  rfl

theorem transact_query_of_error {s : S} {next : Reply s → Program S Reply E α} {st : σ} {e : E}
    (h : srv.exec s st = .error e) : srv.transact (.query s next) st = .error e := by
  show (StateT.bind (srv.statement s) (fun r => srv.transact (next r)) st : Except E _) = _
  unfold StateT.bind statement
  rw [h]
  rfl

theorem transact_bind (p : Program S Reply E α) (f : α → Program S Reply E β) (st : σ) :
    srv.transact (p >>= f) st = (srv.transact p >>= fun a => srv.transact (f a)) st := by
  induction p generalizing st with
  | done a => rfl
  | throw e => rfl
  | query s next ih =>
    show (StateT.bind (srv.statement s) (fun r => srv.transact (next r >>= f)) st : Except E _) =
      StateT.bind (StateT.bind (srv.statement s) fun r => srv.transact (next r))
        (fun a => srv.transact (f a)) st
    unfold StateT.bind
    cases srv.statement s st with
    | error e => rfl
    | ok p => exact ih p.1 p.2

end Server

end VestingDripStream.Lib.Client
