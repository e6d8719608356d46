import Ora.Library.PageServer

/-!
# Rows collected page by page

What has been collected of a list after some pages, where each page was asked
for with the token that came with the page before it.  The pages need not come
from one state of the list; if they do, then the rows are its first ones.
-/

namespace Ora.Library

variable {α γ τ : Type}

/-- The rows of pages that follow each other, with the token for the page after
them and their number. -/
inductive PageWalk (answers : Option τ → List α → Option τ → Prop) :
    List α → Option τ → Nat → Prop where
  | nothing : PageWalk answers [] none 0
  | first {page : List α} {next : Option τ} (answered : answers none page next) :
      PageWalk answers page next 1
  | more {rows page : List α} {token : τ} {next : Option τ} {pages : Nat}
      (walk : PageWalk answers rows (some token) pages)
      (answered : answers (some token) page next) :
      PageWalk answers (rows ++ page) next (pages + 1)

namespace PageWalk

variable {largest size : Nat} {name : α → γ} {list : List γ}
  {server : PageServer largest name list τ} {rows : List α} {next : Option τ} {pages : Nat}

/-- A page that was asked for continues the rows, or starts them again. -/
theorem receive {answers : Option τ → List α → Option τ → Prop} {page : List α}
    {token after : Option τ} (walk : PageWalk answers rows next pages)
    (follows : ∀ asked, token = some asked → next = some asked)
    (answered : answers token page after) :
    if token.isSome then PageWalk answers (rows ++ page) after (pages + 1)
    else PageWalk answers page after 1 := by
  cases token with
  | none => exact .first answered
  | some asked =>
      have same := follows asked rfl
      subst same
      exact .more walk answered

theorem rows_eq_nil {answers : Option τ → List α → Option τ → Prop}
    (walk : PageWalk answers rows next 0) : rows = [] := by
  cases walk with
  | nothing => rfl

/-- The pages a server of an unchanging list answers with. -/
def Serves (server : PageServer largest name list τ) (size : Nat) (token : Option τ)
    (page : List α) (next : Option τ) : Prop :=
  ∃ k, server.request k size token = some (page, next)

/-- What the token after some pages stands for. -/
def Follows (server : PageServer largest name list τ) (rest : List γ) : Option τ → Prop
  | none => rest = []
  | some token => server.remains (some token) rest

theorem pages_pos {answers : Option τ → List α → Option τ → Prop} {token : τ}
    (walk : PageWalk answers rows (some token) pages) : 0 < pages := by
  cases walk with
  | first => exact Nat.one_pos
  | more => exact Nat.succ_pos _

theorem served_page {k : Nat} {token : Option τ} {page : List α} {rest : List γ}
    (positive : 0 < size) (allowed : size ≤ largest) (remaining : server.remains token rest)
    (answered : server.request k size token = some (page, next)) :
    page.map name = rest.take size ∧ Follows server (rest.drop size) next := by
  obtain ⟨page', next', answered', named, follows⟩ :=
    server.serves k size token rest positive allowed remaining
  obtain ⟨rfl, rfl⟩ := Prod.mk.inj (Option.some.inj (answered.symm.trans answered'))
  refine ⟨named, ?_⟩
  split at follows
  · obtain ⟨after, rfl, remains⟩ := follows
    exact remains
  · rename_i short
    subst follows
    exact List.drop_eq_nil_of_le (Nat.le_of_not_le short)

/-- The first rows of an unchanging list; the token stands for the others, and
without a token there are no others. -/
theorem served (positive : 0 < size) (allowed : size ≤ largest)
    (walk : PageWalk (Serves server size) rows next pages) :
    rows.map name = list.take (pages * size) ∧
      (0 < pages → Follows server (list.drop (pages * size)) next) := by
  induction walk with
  | nothing => exact ⟨by simp, fun empty => absurd empty (Nat.lt_irrefl 0)⟩
  | first answered =>
      obtain ⟨k, answered⟩ := answered
      rw [Nat.one_mul]
      exact (served_page positive allowed server.first answered).imp id fun follows _ => follows
  | more walk answered ih =>
      obtain ⟨k, answered⟩ := answered
      obtain ⟨named, follows⟩ := served_page positive allowed (ih.2 walk.pages_pos) answered
      rw [Nat.succ_mul, List.map_append, ih.1, named, ← List.take_add]
      exact ⟨rfl, fun _ => List.drop_drop .. ▸ follows⟩

end PageWalk

end Ora.Library
