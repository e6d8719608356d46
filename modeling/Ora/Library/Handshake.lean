import Ora.Library.Run
import Mathlib.Data.List.Count

/-!
# Offers over two channels

A server offers a task to a worker and may withdraw the offer.  The worker
starts a run for an offer, accepts or rejects it and reports the end of the
run.  Messages are delivered in order, one channel for each direction, and do
not say which offer they are about: the numbers of the offers that were
answered are only there to speak about a run.
-/

namespace Ora.Library

/-- What a server knows of the task. -/
inductive HandshakeEntry where
  | free
  | offered
  | accepted
  deriving DecidableEq, Repr

inductive HandshakeNotice where
  | ready
  | cancelled
  deriving DecidableEq, Repr

inductive HandshakeAnswer where
  | accepted
  | rejected
  | finished
  deriving DecidableEq, Repr

/-- A run is admitted, then it was accepted, then it sends nothing anymore. -/
inductive RunPhase where
  | admitting
  | running
  | ending
  deriving DecidableEq, Repr

/-- A run of the worker and the number of the offer that started it. -/
structure WorkerRun where
  offer : Nat
  phase : RunPhase
  cancelled : Bool
  deriving DecidableEq, Repr

structure Handshake where
  entry : HandshakeEntry
  toWorker : List HandshakeNotice
  toServer : List (HandshakeAnswer × Nat)
  received : Nat
  run : Option WorkerRun
  deriving DecidableEq, Repr

/-- What a run does next. -/
inductive WorkerMove where
  | accept
  | reject
  | abort
  | finish
  | drop
  deriving DecidableEq, Repr

inductive HandshakeMove where
  -- the server
  | offer
  | withdraw
  | lose
  | answer
  | ignore
  -- the worker
  | receive
  | progress (move : WorkerMove)
  | remove
  deriving DecidableEq, Repr

/-- The phase that follows, with what is sent.  A run that was cancelled may
end without an answer. -/
def WorkerRun.next (run : WorkerRun) (move : WorkerMove) :
    Option (RunPhase × Option HandshakeAnswer) :=
  match move, run.phase, run.cancelled with
  | .accept, .admitting, _ => some (.running, some .accepted)
  | .reject, .admitting, _ => some (.ending, some .rejected)
  | .abort, .admitting, true => some (.ending, none)
  | .finish, .running, _ => some (.ending, some .finished)
  | .drop, .running, true => some (.ending, none)
  | _, _, _ => none

namespace Handshake

/-- The number of the offer that was sent last. -/
def latest (state : Handshake) : Nat := state.received + state.toWorker.count .ready

/-- The server handles an answer. -/
def handle (state : Handshake) (answer : HandshakeAnswer) : Handshake :=
  match answer, state.entry with
  | .accepted, .free => { state with toWorker := state.toWorker ++ [.cancelled] }
  | .accepted, .offered => { state with entry := .accepted }
  | .accepted, .accepted => state
  | .rejected, .offered => { state with entry := .free }
  | .rejected, _ => state
  | .finished, _ => { state with entry := .free }

/-- The worker handles a notice: it starts one run at a time. -/
def handleNotice (state : Handshake) (notice : HandshakeNotice) : Handshake :=
  match notice, state.run with
  | .ready, none =>
      { state with
        received := state.received + 1
        run := some ⟨state.received + 1, .admitting, false⟩ }
  | .ready, some _ =>
      { state with
        received := state.received + 1
        toServer := state.toServer ++ [(.rejected, state.received + 1)] }
  | .cancelled, run =>
      { state with run := run.map fun run => { run with cancelled := true } }

def step (state : Handshake) : HandshakeMove → Option Handshake
  | .offer =>
      if state.entry = .free then
        some { state with entry := .offered, toWorker := state.toWorker ++ [.ready] }
      else
        none
  | .withdraw => some { state with entry := .free, toWorker := state.toWorker ++ [.cancelled] }
  | .lose => some { state with entry := .free }
  | .answer =>
      match state.toServer with
      | [] => none
      | answer :: rest => some ({ state with toServer := rest }.handle answer.1)
  | .ignore =>
      match state.toServer with
      | [] => none
      | _ :: rest => some { state with entry := .free, toServer := rest }
  | .receive =>
      match state.toWorker with
      | [] => none
      | notice :: rest => some ({ state with toWorker := rest }.handleNotice notice)
  | .progress move =>
      match state.run with
      | none => none
      | some run =>
          (run.next move).map fun next =>
            { state with
              run := some { run with phase := next.1 }
              toServer := state.toServer ++ next.2.toList.map fun answer => (answer, run.offer) }
  | .remove =>
      match state.run with
      | none => none
      | some run => if run.phase = .ending then some { state with run := none } else none

/-- No acceptance of an earlier offer is taken for one of the latest offer. -/
def Fresh (state : Handshake) (move : HandshakeMove) : Prop :=
  move = .answer → state.entry = .offered → ∀ offer, state.toServer.head? = some (.accepted, offer) →
    offer = state.latest

/-- The run that was started for the latest offer goes on, or its end is reported. -/
def Handled (state : Handshake) : Prop :=
  (∃ run, state.run = some run ∧ run.offer = state.latest ∧ run.phase = .running) ∨
    (.finished, state.latest) ∈ state.toServer

/-- While the task is offered or accepted, nothing was sent after the latest
offer, so the run for that offer is not cancelled. -/
structure Sound (state : Handshake) : Prop where
  answered : ∀ answer ∈ state.toServer, answer.2 ≤ state.received
  started : ∀ run, state.run = some run → run.offer ≤ state.received
  last : state.entry ≠ .free →
    state.toWorker = [] ∨ ∃ earlier, state.toWorker = earlier ++ [.ready]
  uncancelled : state.entry ≠ .free → ∀ run, state.run = some run → run.offer = state.latest →
    run.cancelled = false
  offered : state.entry = .offered → (.accepted, state.latest) ∈ state.toServer → state.Handled
  accepted : state.entry = .accepted → state.toWorker = [] ∧ state.Handled

variable {state after : Handshake} {move : HandshakeMove}

theorem fresh_of_ne (other : move ≠ .answer) : state.Fresh move := fun same => absurd same other

theorem handle_of_offered (offered : state.entry = .offered) :
    state.handle .accepted = { state with entry := .accepted } := by
  rcases state with ⟨entry, toWorker, toServer, received, run⟩
  cases offered
  rfl

/-- An accepted task stays accepted until its end is reported. -/
theorem handle_of_accepted {answer : HandshakeAnswer} (accepted : state.entry = .accepted)
    (unfinished : answer ≠ .finished) : state.handle answer = state := by
  rcases state with ⟨entry, toWorker, toServer, received, run⟩
  cases accepted
  cases answer with
  | accepted => rfl
  | rejected => rfl
  | finished => exact absurd rfl unfinished

/-- The task is free after any number of withdrawals, also when none is sent. -/
theorem reaches_withdrawn (state : Handshake) (count : Nat) :
    Reaches step Fresh state { state with
      entry := .free
      toWorker := state.toWorker ++ List.replicate count .cancelled } := by
  induction count with
  | zero =>
      refine .single .lose (fresh_of_ne (by simp)) ?_
      rw [step, List.replicate_zero, List.append_nil]
  | succ count ih =>
      have withdrawn : step { state with
          entry := .free
          toWorker := state.toWorker ++ List.replicate count .cancelled } .withdraw =
            some { state with
              entry := .free
              toWorker := state.toWorker ++ List.replicate (count + 1) .cancelled } := by
        rw [step, List.replicate_succ', ← List.append_assoc]
      exact .tail ih (fresh_of_ne (by simp)) withdrawn

theorem sound_initial : Sound ⟨.free, [], [], 0, none⟩ := by
  constructor <;> simp

/-- An answer that is no end was handled. -/
theorem Handled.tail {answer : HandshakeAnswer × Nat} {rest : List (HandshakeAnswer × Nat)}
    (handled : state.Handled) (first : state.toServer = answer :: rest)
    (other : answer.1 ≠ .finished) (entry : HandshakeEntry) :
    Handled { state with entry := entry, toServer := rest } := by
  rcases handled with running | reported
  · exact .inl running
  · rw [first] at reported
    rcases List.mem_cons.mp reported with same | later
    · rw [← same] at other
      exact absurd rfl other
    · exact .inr later

namespace Sound

variable {answer : HandshakeAnswer × Nat} {rest : List (HandshakeAnswer × Nat)}
  {notice : HandshakeNotice} {notices : List HandshakeNotice}

/-- A free task leaves only the bounds of the numbers to be shown. -/
theorem of_free (sound : Sound state) (free : after.entry = .free)
    (toServer : ∀ answer ∈ after.toServer, answer ∈ state.toServer)
    (received : after.received = state.received) (run : after.run = state.run) : Sound after where
  answered answer member := received ▸ sound.answered answer (toServer answer member)
  started other started := received ▸ sound.started other (run ▸ started)
  last held := absurd free held
  uncancelled held := absurd free held
  offered held := by rw [free] at held; cases held
  accepted held := by rw [free] at held; cases held

theorem offers (sound : Sound state) :
    Sound { state with entry := .offered, toWorker := state.toWorker ++ [.ready] } := by
  have newest : latest { state with entry := .offered, toWorker := state.toWorker ++ [.ready] } =
      state.latest + 1 := by simp [latest, Nat.add_assoc]
  have bound : state.received ≤ state.latest := Nat.le_add_right ..
  refine ⟨sound.answered, sound.started, fun _ => .inr ⟨_, rfl⟩, ?_, ?_, by simp⟩
  · intro _ run started same
    have older := sound.started run started
    omega
  · intro _ listed
    have older := sound.answered _ listed
    rw [newest] at older
    omega

/-- The acceptance of the latest offer: the offer was received, so nothing else
is on its way to the worker. -/
theorem accepts (sound : Sound state) (first : state.toServer = answer :: rest)
    (accepted : answer.1 = .accepted) (offered : state.entry = .offered)
    (newest : answer.2 = state.latest) :
    Sound { state with entry := .accepted, toServer := rest } := by
  have held : state.entry ≠ .free := by simp [offered]
  have listed : (.accepted, state.latest) ∈ state.toServer := by
    rw [first, ← newest, ← accepted]
    exact List.mem_cons_self ..
  have received : state.toWorker = [] := by
    rcases sound.last held with none | ⟨earlier, same⟩
    · exact none
    · have older := sound.answered _ listed
      simp only [latest, same, List.count_append, List.count_singleton_self] at older
      omega
  have handled := (sound.offered offered listed).tail first (by simp [accepted]) .accepted
  refine ⟨?_, sound.started, fun _ => .inl received, fun _ => sound.uncancelled held, by simp,
    fun _ => ⟨received, handled⟩⟩
  exact fun other member => sound.answered other (first ▸ List.mem_cons_of_mem _ member)

/-- An accepted task stays accepted until the end of the run is reported. -/
theorem keeps (sound : Sound state) (first : state.toServer = answer :: rest)
    (accepted : state.entry = .accepted) (other : answer.1 ≠ .finished) :
    Sound { state with toServer := rest } := by
  obtain ⟨received, handled⟩ := sound.accepted accepted
  have held : state.entry ≠ .free := by simp [accepted]
  refine ⟨?_, sound.started, fun _ => .inl received, fun _ => sound.uncancelled held, ?_, ?_⟩
  · exact fun other member => sound.answered other (first ▸ List.mem_cons_of_mem _ member)
  · intro offered
    cases accepted.symm.trans offered
  · exact fun _ => ⟨received, handled.tail first other state.entry⟩

theorem handles (sound : Sound state) (first : state.toServer = answer :: rest)
    (fresh : state.entry = .offered → answer.1 = .accepted → answer.2 = state.latest) :
    Sound (handle { state with toServer := rest } answer.1) := by
  have fewer : ∀ other ∈ rest, other ∈ state.toServer := fun other member =>
    first ▸ List.mem_cons_of_mem _ member
  rcases state with ⟨entry, toWorker, toServer, received, run⟩
  rcases answer with ⟨kind, number⟩
  cases kind with
  | finished => exact sound.of_free rfl fewer rfl rfl
  | accepted =>
      cases entry with
      | free => exact sound.of_free rfl fewer rfl rfl
      | offered => exact sound.accepts first rfl rfl (fresh rfl rfl)
      | accepted => exact sound.keeps first rfl (by simp)
  | rejected =>
      cases entry with
      | free => exact sound.of_free rfl fewer rfl rfl
      | offered => exact sound.of_free rfl fewer rfl rfl
      | accepted => exact sound.keeps first rfl (by simp)

/-- What follows the first notice ends with the latest offer, too. -/
theorem last_tail (sound : Sound state) (held : state.entry ≠ .free)
    (first : state.toWorker = notice :: notices) :
    notices = [] ∧ notice = .ready ∨ ∃ earlier, notices = earlier ++ [.ready] := by
  rcases sound.last held with none | ⟨earlier, same⟩
  · rw [first] at none
    cases none
  · rw [first] at same
    cases earlier with
    | nil =>
        cases same
        exact .inl ⟨rfl, rfl⟩
    | cons head earlier =>
        cases same
        exact .inr ⟨earlier, rfl⟩

/-- The latest offer is received: it starts a run, or it is rejected. -/
theorem handlesReady (sound : Sound state) (first : state.toWorker = .ready :: notices) :
    Sound (handleNotice { state with toWorker := notices } .ready) := by
  have newest : ∀ run toServer, latest ⟨state.entry, notices, toServer, state.received + 1, run⟩ =
      state.latest := by
    intro run toServer
    simp only [latest, first, List.count_cons_self]
    omega
  have later : state.received < state.latest := by
    simp only [latest, first, List.count_cons_self]
    omega
  have last : state.entry ≠ .free → notices = [] ∨ ∃ earlier, notices = earlier ++ [.ready] :=
    fun held => (sound.last_tail held first).imp_left And.left
  have unreceived : state.entry ≠ .accepted := by
    intro accepted
    rw [(sound.accepted accepted).1] at first
    cases first
  cases current : state.run with
  | none =>
      change Sound ⟨state.entry, notices, state.toServer, state.received + 1,
        some ⟨state.received + 1, .admitting, false⟩⟩
      refine ⟨?_, ?_, last, ?_, ?_, fun accepted => absurd accepted unreceived⟩
      · exact fun answer member => Nat.le_succ_of_le (sound.answered answer member)
      · rintro run ⟨rfl⟩
        exact Nat.le_refl _
      · rintro _ run ⟨rfl⟩ _
        rfl
      · intro _ listed
        rw [newest] at listed
        exact absurd (sound.answered _ listed) (Nat.not_le.mpr later)
  | some run =>
      change Sound ⟨state.entry, notices, state.toServer ++ [(.rejected, state.received + 1)],
        state.received + 1, some run⟩
      have older := sound.started run current
      refine ⟨?_, ?_, last, ?_, ?_, fun accepted => absurd accepted unreceived⟩
      · intro answer member
        rcases List.mem_append.mp member with old | new
        · exact Nat.le_succ_of_le (sound.answered answer old)
        · cases List.mem_singleton.mp new
          exact Nat.le_refl _
      · rintro other ⟨rfl⟩
        exact Nat.le_succ_of_le older
      · rintro _ other ⟨rfl⟩ same
        rw [newest] at same
        exact absurd older (Nat.not_le.mpr (same ▸ later))
      · intro _ listed
        rw [newest, List.mem_append] at listed
        rcases listed with old | new
        · exact absurd (sound.answered _ old) (Nat.not_le.mpr later)
        · cases List.mem_singleton.mp new

/-- A cancellation is of a run for an earlier offer while the task is held. -/
theorem handlesCancelled (sound : Sound state) (first : state.toWorker = .cancelled :: notices) :
    Sound (handleNotice { state with toWorker := notices } .cancelled) := by
  have newest : ∀ run, latest { state with toWorker := notices, run := run } = state.latest := by
    intro run
    simp [latest, first]
  have last : state.entry ≠ .free → ∃ earlier, notices = earlier ++ [.ready] := fun held =>
    (sound.last_tail held first).resolve_left fun other => by cases other.2
  unfold handleNotice
  refine ⟨sound.answered, ?_, fun held => .inr (last held), ?_, ?_, ?_⟩
  · intro run started
    obtain ⟨before, current, rfl⟩ := Option.map_eq_some_iff.mp started
    exact sound.started before current
  · intro held run started same
    obtain ⟨before, current, rfl⟩ := Option.map_eq_some_iff.mp started
    obtain ⟨earlier, rfl⟩ := last held
    have older := sound.started before current
    rw [newest, latest, first] at same
    simp at same
    omega
  · intro offered listed
    rw [newest] at listed
    rcases sound.offered offered listed with ⟨run, current, same, running⟩ | reported
    · refine .inl ⟨{ run with cancelled := true }, ?_, ?_, running⟩
      · exact Option.map_eq_some_iff.mpr ⟨run, current, rfl⟩
      · rw [newest]
        exact same
    · refine .inr ?_
      rw [newest]
      exact reported
  · intro accepted
    rw [(sound.accepted accepted).1] at first
    cases first

/-- A run for the latest offer is not cancelled, so it only ends with a report. -/
theorem progresses {run : WorkerRun} {move : WorkerMove} {phase : RunPhase}
    {answer : Option HandshakeAnswer} (sound : Sound state) (current : state.run = some run)
    (done : run.next move = some (phase, answer)) :
    Sound { state with
      run := some { run with phase := phase }
      toServer := state.toServer ++ answer.toList.map fun answer => (answer, run.offer) } := by
  have kept : state.entry ≠ .free → state.Handled → Handled { state with
      run := some { run with phase := phase }
      toServer := state.toServer ++ answer.toList.map fun answer => (answer, run.offer) } := by
    rintro held (⟨other, started, same, running⟩ | reported)
    · cases current.symm.trans started
      have uncancelled := sound.uncancelled held run current same
      cases move <;> simp [WorkerRun.next, running, uncancelled] at done
      obtain ⟨rfl, rfl⟩ := done
      refine .inr (List.mem_append_right _ ?_)
      rw [same]
      exact List.mem_singleton.mpr rfl
    · exact .inr (List.mem_append_left _ reported)
  refine ⟨?_, ?_, sound.last, ?_, ?_, ?_⟩
  · intro other member
    rcases List.mem_append.mp member with old | new
    · exact sound.answered other old
    · obtain ⟨_, _, rfl⟩ := List.mem_map.mp new
      exact sound.started run current
  · rintro other ⟨rfl⟩
    exact sound.started run current
  · rintro held other ⟨rfl⟩ same
    exact sound.uncancelled held run current same
  · intro offered listed
    have held : state.entry ≠ .free := by simp [show state.entry = .offered from offered]
    rcases List.mem_append.mp listed with old | new
    · exact kept held (sound.offered offered old)
    · obtain ⟨sent, member, same⟩ := List.mem_map.mp new
      obtain ⟨rfl, number⟩ := Prod.mk.inj same
      refine .inl ⟨_, rfl, number, ?_⟩
      cases move <;> cases admitted : run.phase <;> cases wasCancelled : run.cancelled <;>
        simp [WorkerRun.next, admitted, wasCancelled] at done <;>
        obtain ⟨rfl, rfl⟩ := done <;> simp at member ⊢
  · intro accepted
    have held : state.entry ≠ .free := by simp [show state.entry = .accepted from accepted]
    obtain ⟨received, handled⟩ := sound.accepted accepted
    exact ⟨received, kept held handled⟩

theorem removes {run : WorkerRun} (sound : Sound state) (current : state.run = some run)
    (ending : run.phase = .ending) : Sound { state with run := none } := by
  have kept : state.Handled → Handled { state with run := none } := by
    rintro (⟨other, started, _, running⟩ | reported)
    · cases current.symm.trans started
      rw [ending] at running
      cases running
    · exact .inr reported
  refine ⟨sound.answered, by simp, sound.last, by simp, ?_, ?_⟩
  · exact fun offered listed => kept (sound.offered offered listed)
  · intro accepted
    obtain ⟨received, handled⟩ := sound.accepted accepted
    exact ⟨received, kept handled⟩

theorem step (sound : Sound state) (fresh : state.Fresh move)
    (done : state.step move = some after) : Sound after := by
  cases move with
  | offer =>
      simp only [Handshake.step] at done
      split at done
      · cases done
        exact sound.offers
      · cases done
  | withdraw =>
      cases done
      exact sound.of_free rfl (fun _ member => member) rfl rfl
  | lose =>
      cases done
      exact sound.of_free rfl (fun _ member => member) rfl rfl
  | answer =>
      simp only [Handshake.step] at done
      split at done
      · cases done
      · rename_i answer rest first
        cases done
        refine sound.handles first fun offered accepted => ?_
        refine fresh rfl offered answer.2 ?_
        rw [first, ← accepted]
        rfl
  | ignore =>
      simp only [Handshake.step] at done
      split at done
      · cases done
      · rename_i answer rest first
        cases done
        exact sound.of_free rfl (fun _ member => first ▸ List.mem_cons_of_mem _ member) rfl rfl
  | receive =>
      simp only [Handshake.step] at done
      split at done
      · cases done
      · rename_i notice notices first
        cases done
        cases notice with
        | ready => exact sound.handlesReady first
        | cancelled => exact sound.handlesCancelled first
  | progress move =>
      simp only [Handshake.step] at done
      split at done
      · cases done
      · rename_i run current
        obtain ⟨⟨phase, answer⟩, progressed, rfl⟩ := Option.map_eq_some_iff.mp done
        exact sound.progresses current progressed
  | remove =>
      simp only [Handshake.step] at done
      split at done
      · cases done
      · rename_i run current
        split at done
        · cases done
          exact sound.removes current (by assumption)
        · cases done

/-- When no answer is on its way, an accepted task has a run. -/
theorem run_of_accepted (sound : Sound state) (accepted : state.entry = .accepted)
    (none : state.toServer = []) :
    ∃ run, state.run = some run ∧ run.phase = .running ∧ run.cancelled = false := by
  rcases (sound.accepted accepted).2 with ⟨run, current, same, running⟩ | reported
  · exact ⟨run, current, running, sound.uncancelled (by simp [accepted]) run current same⟩
  · rw [none] at reported
    cases reported

end Sound

end Handshake

end Ora.Library
