import Ora.Library.Run
import Mathlib.Data.List.Basic

/-!
# Checks and inserts under one lock

A call takes the lock, checks the committed state, and inserts when the check
finds nothing.  Its insertion and the release of the lock become visible
together, while other transactions commit at any time.  At most one call holds
the lock, so that no other call inserts between the check of a call and its
insertion.
-/

namespace Ora.Library

variable {σ ρ γ κ α : Type}

/-- What a call checks and inserts, and the changes made by others. -/
structure CheckedInsert (σ ρ γ κ α : Type) where
  /-- A call that has nothing to insert returns at once. -/
  idle : ρ → Bool
  check : σ → ρ → List κ
  /-- The rows inserted for a request depend on a choice, `none` is a rollback. -/
  insert : σ → ρ → γ → Option (σ × List κ)
  other : σ → α → Option σ

namespace CheckedInsert

inductive Phase (σ κ : Type) where
  | waiting
  | locked
  | existing (snapshot : σ) (found : List κ)
  | vacant (snapshot : σ) (seen : Nat)
  | returned

def Phase.holdsLock : Phase σ κ → Bool
  | .waiting => false
  | .locked => true
  | .existing _ _ => true
  | .vacant _ _ => true
  | .returned => false

structure Call (σ ρ κ : Type) where
  request : ρ
  phase : Phase σ κ

/-- What a call inserted, `seen` is the number of insertions before its check. -/
structure Insertion (σ ρ κ : Type) where
  request : ρ
  snapshot : σ
  seen : Nat
  after : σ
  ids : List κ

/-- What a call returned without inserting. -/
structure Answer (σ ρ κ : Type) where
  request : ρ
  snapshot : σ
  ids : List κ

structure State (σ ρ κ : Type) where
  store : σ
  holder : Option Nat
  calls : List (Call σ ρ κ)
  /-- All insertions and answers, in the order of their commits. -/
  insertions : List (Insertion σ ρ κ)
  answers : List (Answer σ ρ κ)

def State.initial (store : σ) : State σ ρ κ := ⟨store, none, [], [], []⟩

inductive Action (ρ γ α : Type) where
  | start (request : ρ)
  | lock (call : Nat)
  | check (call : Nat)
  | commit (call : Nat) (choice : γ)
  | rollback (call : Nat)
  | other (action : α)

/-- A call returns and releases the lock. -/
def State.release (state : State σ ρ κ) (call : Nat) (request : ρ) : State σ ρ κ :=
  { state with
    holder := none
    calls := state.calls.set call ⟨request, .returned⟩ }

variable (protocol : CheckedInsert σ ρ γ κ α)

/-- The phase after the check of the committed state. -/
def checked (state : State σ ρ κ) (request : ρ) : Phase σ κ :=
  if (protocol.check state.store request).isEmpty then
    .vacant state.store state.insertions.length
  else
    .existing state.store (protocol.check state.store request)

def step (state : State σ ρ κ) : Action ρ γ α → Option (State σ ρ κ)
  | .start request =>
      some { state with
        calls := state.calls ++ [⟨request, if protocol.idle request then .returned else .waiting⟩] }
  | .lock call =>
      match state.holder, state.calls[call]? with
      | none, some ⟨request, .waiting⟩ =>
          some { state with
            holder := some call
            calls := state.calls.set call ⟨request, .locked⟩ }
      | _, _ => none
  | .check call =>
      match state.calls[call]? with
      | some ⟨request, .locked⟩ =>
          some { state with calls := state.calls.set call ⟨request, protocol.checked state request⟩ }
      | _ => none
  | .commit call choice =>
      match state.calls[call]? with
      | some ⟨request, .existing snapshot found⟩ =>
          some { state.release call request with
            answers := state.answers ++ [⟨request, snapshot, found⟩] }
      | some ⟨request, .vacant snapshot seen⟩ =>
          (protocol.insert state.store request choice).map fun inserted =>
            { state.release call request with
              store := inserted.1
              insertions := state.insertions ++ [⟨request, snapshot, seen, inserted.1, inserted.2⟩] }
      | _ => none
  | .rollback call =>
      match state.calls[call]? with
      | some ⟨request, phase⟩ =>
          if phase.holdsLock then some (state.release call request) else none
      | none => none
  | .other action =>
      (protocol.other state.store action).map fun store => { state with store := store }

/-- A relation between earlier and later states of the store, and what is known
of the rows when they are inserted. -/
structure Persists (Later : σ → σ → Prop) (Made : σ → List κ → Prop) : Prop where
  refl : ∀ store, Later store store
  trans : ∀ first second third, Later first second → Later second third → Later first third
  insert : ∀ store request choice after ids,
    protocol.insert store request choice = some (after, ids) → Later store after ∧ Made after ids
  other : ∀ store action after, protocol.other store action = some after → Later store after

/-- What is known of a call in its phase. -/
def CallSound (Later : σ → σ → Prop) (state : State σ ρ κ) (call : Call σ ρ κ) : Prop :=
  match call.phase with
  | .existing snapshot found => protocol.check snapshot call.request = found ∧ found ≠ []
  | .vacant snapshot seen => protocol.check snapshot call.request = [] ∧
      seen = state.insertions.length ∧ ∀ made ∈ state.insertions, Later made.after snapshot
  | _ => True

structure InsertionSound (Later : σ → σ → Prop) (Made : σ → List κ → Prop) (store : σ)
    (made : Insertion σ ρ κ) : Prop where
  vacant : protocol.check made.snapshot made.request = []
  ids : Made made.after made.ids
  current : Later made.after store

structure LockInvariant (Later : σ → σ → Prop) (Made : σ → List κ → Prop) (state : State σ ρ κ) :
    Prop where
  holder : ∀ (i : Nat) call, state.calls[i]? = some call → call.phase.holdsLock = true →
    state.holder = some i
  calls : ∀ (i : Nat) call, state.calls[i]? = some call → protocol.CallSound Later state call
  insertions : ∀ made ∈ state.insertions, protocol.InsertionSound Later Made state.store made
  seen : ∀ (n : Nat) made, state.insertions[n]? = some made → made.seen = n
  ordered : state.insertions.Pairwise fun made next => Later made.after next.snapshot
  answers : ∀ answer ∈ state.answers,
    protocol.check answer.snapshot answer.request = answer.ids ∧ answer.ids ≠ []

section Invariant

variable {protocol} {Later : σ → σ → Prop} {Made : σ → List κ → Prop} {state after : State σ ρ κ}

theorem LockInvariant.initial (store : σ) :
    protocol.LockInvariant Later Made (.initial store) where
  holder := by simp [State.initial]
  calls := by simp [State.initial]
  insertions := by simp [State.initial]
  seen := by simp [State.initial]
  ordered := .nil
  answers := by simp [State.initial]

theorem call_append {calls : List (Call σ ρ κ)} {new call : Call σ ρ κ}
    {i : Nat} (found : (calls ++ [new])[i]? = some call) : call = new ∨ calls[i]? = some call := by
  rw [List.getElem?_append] at found
  split at found
  · exact .inr found
  · exact .inl (List.mem_singleton.mp (List.mem_of_getElem? found))

theorem call_set {calls : List (Call σ ρ κ)} {i j : Nat} {changed call : Call σ ρ κ}
    (found : (calls.set i changed)[j]? = some call) :
    (j = i ∧ call = changed) ∨ (j ≠ i ∧ calls[j]? = some call) := by
  rw [List.getElem?_set] at found
  split at found
  · rename_i same
    split at found
    · exact .inl ⟨same.symm, (Option.some.inj found).symm⟩
    · cases found
  · rename_i other
    exact .inr ⟨fun same => other same.symm, found⟩

/-- Nothing is known of a call that does not hold the lock. -/
theorem CallSound.of_free {call : Call σ ρ κ} (free : call.phase.holdsLock = false) :
    protocol.CallSound Later state call := by
  unfold CallSound
  cases phase : call.phase with
  | waiting => trivial
  | locked => trivial
  | existing snapshot found => simp [phase, Phase.holdsLock] at free
  | vacant snapshot seen => simp [phase, Phase.holdsLock] at free
  | returned => trivial

namespace LockInvariant

/-- Only the holder of the lock can be past its check. -/
theorem free_of_holder (inv : protocol.LockInvariant Later Made state) {j : Nat}
    {call : Call σ ρ κ} (found : state.calls[j]? = some call) (other : state.holder ≠ some j) :
    call.phase.holdsLock = false := by
  rw [Bool.eq_false_iff]
  exact fun locked => other (inv.holder j call found locked)

theorem start (inv : protocol.LockInvariant Later Made state) (request : ρ)
    {phase : Phase σ κ} (free : phase.holdsLock = false) :
    protocol.LockInvariant Later Made { state with calls := state.calls ++ [⟨request, phase⟩] } where
  holder i call found locked := by
    rcases call_append found with rfl | old
    · rw [free] at locked
      cases locked
    · exact inv.holder i call old locked
  calls i call found := by
    rcases call_append found with rfl | old
    · exact .of_free free
    · exact inv.calls i call old
  insertions := inv.insertions
  seen := inv.seen
  ordered := inv.ordered
  answers := inv.answers

/-- The holder of the lock changes its phase. -/
theorem advance (inv : protocol.LockInvariant Later Made state) {i : Nat} {holder : Option Nat}
    {changed : Call σ ρ κ} (own : holder = some i)
    (alone : ∀ j, state.holder = some j → j = i)
    (sound : protocol.CallSound Later state changed) :
    protocol.LockInvariant Later Made
      { state with
        holder := holder
        calls := state.calls.set i changed } where
  holder j call found locked := by
    rcases call_set found with ⟨rfl, _⟩ | ⟨other, old⟩
    · exact own
    · exact absurd (alone j (inv.holder j call old locked)) other
  calls j call found := by
    rcases call_set found with ⟨_, rfl⟩ | ⟨_, old⟩
    · exact sound
    · exact inv.calls j call old
  insertions := inv.insertions
  seen := inv.seen
  ordered := inv.ordered
  answers := inv.answers

/-- After the holder returned no call holds the lock. -/
theorem free_of_release (inv : protocol.LockInvariant Later Made state) {i : Nat} {request : ρ}
    (own : state.holder = some i) {j : Nat} {call : Call σ ρ κ}
    (found : (state.release i request).calls[j]? = some call) : call.phase.holdsLock = false := by
  rcases call_set found with ⟨_, rfl⟩ | ⟨other, old⟩
  · rfl
  · refine inv.free_of_holder old fun same => other ?_
    rw [own, Option.some.injEq] at same
    exact same.symm

theorem release (inv : protocol.LockInvariant Later Made state) {i : Nat} (request : ρ)
    (own : state.holder = some i) :
    protocol.LockInvariant Later Made (state.release i request) where
  holder j call found locked := by
    rw [inv.free_of_release own found] at locked
    cases locked
  calls j call found := .of_free (inv.free_of_release own found)
  insertions := inv.insertions
  seen := inv.seen
  ordered := inv.ordered
  answers := inv.answers

theorem answer (inv : protocol.LockInvariant Later Made state) {made : Answer σ ρ κ}
    (sound : protocol.check made.snapshot made.request = made.ids ∧ made.ids ≠ [])
    (free : ∀ (i : Nat) call, state.calls[i]? = some call → call.phase.holdsLock = false) :
    protocol.LockInvariant Later Made { state with answers := state.answers ++ [made] } where
  holder := inv.holder
  calls i call found := .of_free (free i call found)
  insertions := inv.insertions
  seen := inv.seen
  ordered := inv.ordered
  answers := by
    simp only [List.forall_mem_append, List.forall_mem_singleton]
    exact ⟨inv.answers, sound⟩

/-- A call inserts what its check did not find; the insertions before it were
all made before the check. -/
theorem insert (persists : protocol.Persists Later Made)
    (inv : protocol.LockInvariant Later Made state) (made : Insertion σ ρ κ)
    (sound : protocol.InsertionSound Later Made made.after made)
    (later : Later state.store made.after)
    (seen : made.seen = state.insertions.length)
    (earlier : ∀ before ∈ state.insertions, Later before.after made.snapshot)
    (free : ∀ (i : Nat) call, state.calls[i]? = some call → call.phase.holdsLock = false) :
    protocol.LockInvariant Later Made
      { state with
        store := made.after
        insertions := state.insertions ++ [made] } where
  holder i call found locked := by
    rw [free i call found] at locked
    cases locked
  calls i call found := .of_free (free i call found)
  insertions := by
    simp only [List.forall_mem_append, List.forall_mem_singleton]
    refine ⟨fun before member => ?_, sound⟩
    have sound := inv.insertions before member
    exact ⟨sound.vacant, sound.ids, persists.trans _ _ _ sound.current later⟩
  seen n next found := by
    rw [List.getElem?_append] at found
    split at found
    · exact inv.seen n next found
    · obtain ⟨inside, rfl⟩ := List.getElem?_eq_some_iff.mp found
      simp only [List.length_singleton] at inside
      rw [List.getElem_singleton, seen]
      omega
  ordered := by
    rw [List.pairwise_append]
    refine ⟨inv.ordered, List.pairwise_singleton _ _, ?_⟩
    simpa using earlier
  answers := inv.answers

theorem other (persists : protocol.Persists Later Made)
    (inv : protocol.LockInvariant Later Made state) {store : σ}
    (later : Later state.store store) :
    protocol.LockInvariant Later Made { state with store := store } where
  holder := inv.holder
  calls := inv.calls
  insertions made member := by
    have sound := inv.insertions made member
    exact ⟨sound.vacant, sound.ids, persists.trans _ _ _ sound.current later⟩
  seen := inv.seen
  ordered := inv.ordered
  answers := inv.answers

/-- What a call finds in the committed state is sound. -/
theorem checked (inv : protocol.LockInvariant Later Made state) (request : ρ) :
    protocol.CallSound Later state ⟨request, protocol.checked state request⟩ := by
  unfold CallSound CheckedInsert.checked
  cases found : protocol.check state.store request with
  | nil => exact ⟨found, rfl, fun made member => (inv.insertions made member).current⟩
  | cons first rest => exact ⟨found, List.cons_ne_nil _ _⟩

theorem commit (persists : protocol.Persists Later Made)
    (inv : protocol.LockInvariant Later Made state) {i : Nat} {choice : γ}
    (done : protocol.step state (.commit i choice) = some after) :
    protocol.LockInvariant Later Made after := by
  simp only [step] at done
  split at done
  · rename_i request snapshot found call
    cases done
    have own := inv.holder i _ call rfl
    have sound : protocol.check snapshot request = found ∧ found ≠ [] := inv.calls i _ call
    exact (inv.release request own).answer sound fun j other present =>
      inv.free_of_release own present
  · rename_i request snapshot seen call
    obtain ⟨⟨store, ids⟩, inserted, rfl⟩ := Option.map_eq_some_iff.mp done
    have own := inv.holder i _ call rfl
    obtain ⟨vacant, length, earlier⟩ := inv.calls i _ call
    obtain ⟨later, made⟩ := persists.insert _ _ _ _ _ inserted
    exact (inv.release request own).insert persists ⟨request, snapshot, seen, store, ids⟩
      ⟨vacant, made, persists.refl _⟩ later length earlier
      fun j other present => inv.free_of_release own present
  · cases done

theorem step (persists : protocol.Persists Later Made)
    (inv : protocol.LockInvariant Later Made state) {action : Action ρ γ α}
    (done : protocol.step state action = some after) :
    protocol.LockInvariant Later Made after := by
  cases action with
  | start request =>
      cases done
      refine inv.start request ?_
      split <;> rfl
  | lock i =>
      simp only [CheckedInsert.step] at done
      split at done
      · rename_i request unlocked call
        cases done
        exact inv.advance rfl (by simp [unlocked]) trivial
      · cases done
  | check i =>
      simp only [CheckedInsert.step] at done
      split at done
      · rename_i request call
        cases done
        have own := inv.holder i _ call rfl
        exact inv.advance own (fun j same => by simpa [own] using same.symm) (inv.checked request)
      · cases done
  | commit i choice => exact inv.commit persists done
  | rollback i =>
      simp only [CheckedInsert.step] at done
      split at done
      · rename_i request phase call
        split at done
        · rename_i locked
          cases done
          exact inv.release request (inv.holder i _ call locked)
        · cases done
      · cases done
  | other action =>
      obtain ⟨store, changed, rfl⟩ := Option.map_eq_some_iff.mp done
      exact inv.other persists (persists.other _ _ _ changed)

/-- No insertion was made between the check of a call and its own. -/
theorem seen_not_le (inv : protocol.LockInvariant Later Made state) {n m : Nat}
    {made : Insertion σ ρ κ} (found : state.insertions[n]? = some made) (before : m < n) :
    ¬made.seen ≤ m := by
  rw [inv.seen n made found]
  omega

/-- An earlier insertion was visible to the check of a later one. -/
theorem visible (inv : protocol.LockInvariant Later Made state) {n m : Nat}
    {made next : Insertion σ ρ κ} (found : state.insertions[m]? = some made)
    (foundNext : state.insertions[n]? = some next) (before : m < n) :
    Later made.after next.snapshot := by
  obtain ⟨first, rfl⟩ := List.getElem?_eq_some_iff.mp found
  obtain ⟨second, rfl⟩ := List.getElem?_eq_some_iff.mp foundNext
  exact List.pairwise_iff_getElem.mp inv.ordered m n first second before

end LockInvariant

/-- No row that matches a request is inserted between its check and its own
insertion.  Of the rows that were inserted before and matched a lasting
request, none is stored any more when it is checked.  Other calls return what
they found, and they found something. -/
structure AdmitsNoPhantom (protocol : CheckedInsert σ ρ γ κ α) (lasting : ρ → Prop)
    (stored : σ → κ → Prop) (state : State σ ρ κ) : Prop where
  noPhantom : ∀ (n m : Nat) made between, state.insertions[n]? = some made →
    state.insertions[m]? = some between → made.seen ≤ m → m < n →
    ∀ id ∈ between.ids, id ∉ protocol.check between.after made.request
  once : ∀ (n m : Nat) made before, state.insertions[n]? = some made →
    state.insertions[m]? = some before → m < n → lasting made.request →
    ∀ id ∈ before.ids, id ∈ protocol.check before.after made.request → ¬stored made.snapshot id
  answered : ∀ answer ∈ state.answers,
    answer.ids ≠ [] ∧ answer.ids = protocol.check answer.snapshot answer.request

theorem LockInvariant.admitsNoPhantom {lasting : ρ → Prop} {stored : σ → κ → Prop}
    (inv : protocol.LockInvariant Later Made state)
    (lasts : ∀ store after ids request, Later store after → Made store ids → lasting request →
      ∀ id ∈ ids, id ∈ protocol.check store request → stored after id →
        id ∈ protocol.check after request) :
    AdmitsNoPhantom protocol lasting stored state where
  noPhantom n m made between found _ seen before := absurd seen (inv.seen_not_le found before)
  once n m made before found foundBefore earlier lasting id inserted matched stored := by
    have sound := inv.insertions before (List.mem_of_getElem? foundBefore)
    have remains := lasts _ _ _ _ (inv.visible foundBefore found earlier) sound.ids lasting id
      inserted matched stored
    rw [(inv.insertions made (List.mem_of_getElem? found)).vacant] at remains
    exact List.not_mem_nil remains
  answered answer member := ⟨(inv.answers answer member).2, (inv.answers answer member).1.symm⟩

end Invariant

theorem lockInvariant_of_reaches {protocol : CheckedInsert σ ρ γ κ α} {Later : σ → σ → Prop}
    {Made : σ → List κ → Prop} {store : σ} {state : State σ ρ κ}
    (persists : protocol.Persists Later Made)
    (run : Reaches protocol.step (fun _ _ => True) (.initial store) state) :
    protocol.LockInvariant Later Made state :=
  run.invariant (fun _ _ _ inv _ done => inv.step persists done) (.initial store)

end CheckedInsert

end Ora.Library
