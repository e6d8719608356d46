import Ora.Library.Newest
import Ora.Library.PageWalk
import Ora.Tui.App

/-!
# Rows of a table and the request for more

What the jobs and the schedules table have in common: the rows on screen, the
rows of the fetch in progress, and the request whose answer is awaited.  A fetch
in progress is a walk along pages of one query, and so are the rows on screen.
-/

namespace Ora.Tui

open Ora.Library

variable {α κ τ : Type}

namespace Counter

variable {ρ : Type} {counter : Counter ρ} {n : Nat}

/-- So many more tokens can be given out before they start over. -/
def Room (counter : Counter ρ) (n : Nat) : Prop :=
  counter.token + n < 2 ^ 64

instance : Decidable (counter.Room n) :=
  inferInstanceAs (Decidable (_ < _))

theorem Room.token_lt (room : counter.Room (n + 1)) : counter.token < counter.nextToken := by
  have small : counter.token + 1 < 2 ^ 64 := by unfold Room at room; omega
  rw [nextToken, Nat.mod_eq_of_lt small]
  exact Nat.lt_succ_self _

theorem Room.cancel (room : counter.Room (n + 1)) : counter.cancel.Room n := by
  have small : counter.token + 1 < 2 ^ 64 := by unfold Room at room; omega
  unfold Room at room ⊢
  simp only [Counter.cancel, nextToken, Nat.mod_eq_of_lt small]
  omega

theorem Room.mono {m : Nat} (room : counter.Room n) (fewer : m ≤ n) : counter.Room m := by
  unfold Room at room ⊢
  omega

/-- The request in flight, if any, is the newest, and it is one of these. -/
def Awaits (counter : Counter ρ) (asked : ρ → Prop) : Prop :=
  Newest counter.token counter.waiting counter.tasks asked

namespace Awaits

variable {asked asked' : ρ → Prop} {request : ρ} {task : Nat}

theorem mono (awaits : counter.Awaits asked) (weaker : ∀ request, asked request → asked' request) :
    counter.Awaits asked' :=
  Newest.mono awaits weaker

theorem cancel (awaits : counter.Awaits asked) (room : counter.Room (n + 1)) :
    counter.cancel.Awaits asked' :=
  Newest.cancel awaits room.token_lt

theorem start (awaits : counter.Awaits asked) (room : counter.Room (n + 1))
    (now : asked' request) : (counter.start request).Awaits asked' :=
  Newest.start awaits room.token_lt now

/-- The answer of a request that is not awaited changes nothing. -/
theorem ended (awaits : counter.Awaits asked) (task : Nat) : (counter.ended task).Awaits asked :=
  Newest.remove awaits task

theorem accepted (awaits : counter.Awaits asked)
    (answering : counter.tasks[task]? = some (counter.token, request)) :
    (counter.ended task).finish.Awaits asked' :=
  Newest.finish awaits answering

theorem waited (awaits : counter.Awaits asked)
    (answering : counter.tasks[task]? = some (counter.token, request)) :
    counter.waiting = true ∧ asked request :=
  Newest.waited awaits answering

/-- Nothing is asked for without waiting for it. -/
theorem of_idle (awaits : counter.Awaits asked) (idle : counter.waiting = false) :
    counter.Awaits asked' :=
  ⟨awaits.distinct, awaits.older, fun request member =>
    absurd (awaits.awaited request member).1 (idle ▸ Bool.false_ne_true)⟩

end Awaits

end Counter

/-- The rows of some pages, the token for the page after them and their number. -/
structure PageRows (α τ : Type) where
  rows : List α
  next : Option τ
  pages : Nat

namespace PageRows

variable {answers : Option τ → List α → Option τ → Prop} {collected : PageRows α τ}
  {page : List α} {token after : Option τ}

def Walks (answers : Option τ → List α → Option τ → Prop) (collected : PageRows α τ) : Prop :=
  PageWalk answers collected.rows collected.next collected.pages

def nothing : PageRows α τ :=
  ⟨[], none, 0⟩

/-- With a page that extends or replaces the rows. -/
def receive (collected : PageRows α τ) (page : List α) (after : Option τ) (append : Bool) :
    PageRows α τ where
  rows := if append then collected.rows ++ page else page
  next := after
  pages := if append then collected.pages + 1 else 1

theorem walks_nothing : (nothing : PageRows α τ).Walks answers :=
  .nothing

theorem Walks.receive (walks : collected.Walks answers)
    (follows : ∀ asked, token = some asked → collected.next = some asked)
    (answered : answers token page after) :
    (collected.receive page after token.isSome).Walks answers := by
  have walk := PageWalk.receive walks follows answered
  cases token with
  | none => exact walk
  | some asked => exact walk

/-- The first request of a walk starts over, the others continue it.  A refresh
that was not demanded begins with no more than the pages that load on their
own on screen. -/
structure Asked (query : κ) (demanded : Prop) (shown incoming : PageRows α τ)
    (request : Request κ τ) : Prop where
  query : request.query = query
  follows : ∀ token, request.pageToken = some token → incoming.next = some token
  within : request.pageToken = none → shown.pages ≤ autoPages ∨ demanded

end PageRows

open PageRows

/-- The rows on screen and those of the fetch in progress belong to one query.
`demanded` is whether refreshes were demanded that could take rows off the
screen.  Nothing is fetched while the selection is settling. -/
structure Rows (answers : Option τ → List α → Option τ → Prop) (query : κ)
    (demanded settling : Prop) (counter : Counter (Request κ τ)) (shown incoming : PageRows α τ) :
    Prop where
  shownWalks : shown.Walks answers
  incomingWalks : incoming.Walks answers
  awaits : counter.Awaits (Asked query demanded shown incoming)
  kept : shown.pages ≤ max incoming.pages autoPages ∨ demanded
  resting : settling → counter.waiting = false ∧ incoming.next = none ∧ shown.pages = 0

namespace Rows

variable {answers : Option τ → List α → Option τ → Prop} {query : κ} {demanded settling : Prop}
  {counter : Counter (Request κ τ)} {shown incoming : PageRows α τ} {n task : Nat}
  {request : Request κ τ} {page : List α} {after : Option τ}

theorem cleared {asked : Request κ τ → Prop} (awaits : counter.Awaits asked)
    (room : counter.Room (n + 1)) :
    Rows answers query demanded settling counter.cancel (nothing : PageRows α τ) nothing where
  shownWalks := walks_nothing
  incomingWalks := walks_nothing
  awaits := awaits.cancel room
  kept := .inl (Nat.zero_le _)
  resting _ := ⟨rfl, rfl, rfl⟩

/-- The selection comes to rest, or starts moving over an empty table. -/
theorem settle {settling' : Prop} (rows : Rows answers query demanded settling counter shown incoming)
    (still : settling' → settling) : Rows answers query demanded settling' counter shown incoming :=
  { rows with resting := fun now => rows.resting (still now) }

/-- Without rows on screen, no pages of them are known either. -/
theorem forget (rows : Rows answers query demanded settling counter shown incoming) :
    Rows answers query demanded settling counter .nothing incoming where
  shownWalks := walks_nothing
  incomingWalks := rows.incomingWalks
  awaits := rows.awaits.mono fun _ asked =>
    ⟨asked.query, asked.follows, fun _ => .inl (Nat.zero_le _)⟩
  kept := .inl (Nat.zero_le _)
  resting now := (rows.resting now).imp id fun rest => ⟨rest.1, rfl⟩

theorem start_first (rows : Rows answers query demanded settling counter shown incoming)
    (room : counter.Room (n + 1)) (rests : ¬settling)
    (within : shown.pages ≤ autoPages ∨ demanded) :
    Rows answers query demanded settling (counter.start ⟨query, none⟩) shown incoming :=
  { rows with
    awaits := rows.awaits.start room ⟨rfl, fun _ none => absurd none (by simp), fun _ => within⟩
    resting := fun now => absurd now rests }

theorem start_next (rows : Rows answers query demanded settling counter shown incoming)
    (room : counter.Room (n + 1)) (more : incoming.next ≠ none) :
    Rows answers query demanded settling (counter.start ⟨query, incoming.next⟩) shown incoming :=
  { rows with
    awaits := rows.awaits.start room ⟨rfl, fun _ same => same, fun none => absurd none more⟩
    resting := fun now => absurd (rows.resting now).2.1 more }

/-- The request in flight is dropped. -/
theorem cancel (rows : Rows answers query demanded settling counter shown incoming)
    (room : counter.Room (n + 1)) :
    Rows answers query demanded settling counter.cancel shown incoming :=
  { rows with
    awaits := rows.awaits.cancel room
    resting := fun now => (rows.resting now).imp (fun _ => rfl) id }

/-- A refresh in flight is dropped for the rows on screen. -/
theorem restore (rows : Rows answers query demanded settling counter shown incoming)
    (room : counter.Room (n + 1)) (waiting : counter.waiting = true) :
    Rows answers query demanded settling counter.cancel shown shown where
  shownWalks := rows.shownWalks
  incomingWalks := rows.shownWalks
  awaits := rows.awaits.cancel room
  kept := .inl (Nat.le_max_left _ _)
  resting now := absurd (rows.resting now).1 (Bool.not_eq_false _ |>.mpr waiting)

theorem ended (rows : Rows answers query demanded settling counter shown incoming) (task : Nat) :
    Rows answers query demanded settling (counter.ended task) shown incoming :=
  { rows with awaits := rows.awaits.ended task }

/-- Nothing is awaited while the selection settles. -/
theorem rests (rows : Rows answers query demanded settling counter shown incoming)
    (answering : counter.tasks[task]? = some (counter.token, request)) : ¬settling :=
  fun now => absurd (rows.resting now).1
    (Bool.not_eq_false _ |>.mpr (rows.awaits.waited answering).1)

/-- The awaited request fails. -/
theorem failed (rows : Rows answers query demanded settling counter shown incoming)
    (answering : counter.tasks[task]? = some (counter.token, request)) :
    Rows answers query demanded settling (counter.ended task).finish shown incoming :=
  { rows with
    awaits := rows.awaits.accepted answering
    resting := fun now => (rows.resting now).imp (fun _ => rfl) id }

/-- The awaited page arrives. -/
theorem received (rows : Rows answers query demanded settling counter shown incoming)
    (answering : counter.tasks[task]? = some (counter.token, request))
    (answered : answers request.pageToken page after) :
    Rows answers query demanded settling (counter.ended task).finish shown
      (incoming.receive page after request.pageToken.isSome) := by
  obtain ⟨-, asked⟩ := rows.awaits.waited answering
  refine ⟨rows.shownWalks, rows.incomingWalks.receive asked.follows answered, rows.awaits.accepted answering,
    ?_, fun now => absurd now (rows.rests answering)⟩
  cases first : request.pageToken with
  | none => exact (asked.within first).imp (Nat.le_trans · (Nat.le_max_right _ _)) id
  | some token =>
      refine rows.kept.imp (fun few => Nat.le_trans few ?_) id
      simp only [PageRows.receive, Option.isSome_some, if_true]
      omega

/-- The rows of the fetch in progress are shown. -/
theorem show_incoming (rows : Rows answers query demanded settling counter shown incoming)
    (idle : counter.waiting = false) (rests : ¬settling) :
    Rows answers query demanded settling counter incoming incoming where
  shownWalks := rows.incomingWalks
  incomingWalks := rows.incomingWalks
  awaits := rows.awaits.of_idle idle
  kept := .inl (Nat.le_max_left _ _)
  resting now := absurd now rests

end Rows

end Ora.Tui
