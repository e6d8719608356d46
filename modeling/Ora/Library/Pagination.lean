import Mathlib.Data.List.Nodup
import Mathlib.Tactic.Ring

/-!
# Listing by pages

A listing returns a page of rows and, after a full page, a token for the rows
beyond the last one.  The pages of a sorted list are complete exactly when the
token of every row that ends a full page selects the rows after it.
-/

namespace Ora.Library

variable {α β γ τ υ : Type}

/-- The pages obtained by following tokens, with `fetch k` as the `k`-th request. -/
inductive Pages (fetch : Nat → Option τ → Option (List α × Option τ)) :
    Nat → Option τ → List (List α) → Prop where
  | last {k : Nat} {token : Option τ} {page : List α}
      (fetched : fetch k token = some (page, none)) : Pages fetch k token [page]
  | more {k : Nat} {token : Option τ} {page : List α} {next : τ} {rest : List (List α)}
      (fetched : fetch k token = some (page, some next))
      (following : Pages fetch (k + 1) (some next) rest) : Pages fetch k token (page :: rest)

namespace Pages

variable {fetch : Nat → Option τ → Option (List α × Option τ)}

theorem unique {k : Nat} {token : Option τ} {first second : List (List α)}
    (hfirst : Pages fetch k token first) (hsecond : Pages fetch k token second) :
    first = second := by
  induction hfirst generalizing second with
  | last fetched =>
      cases hsecond with
      | last fetched' =>
          rw [fetched] at fetched'
          cases fetched'
          rfl
      | more fetched' _ =>
          rw [fetched] at fetched'
          cases fetched'
  | more fetched _ ih =>
      cases hsecond with
      | last fetched' =>
          rw [fetched] at fetched'
          cases fetched'
      | more fetched' following' =>
          rw [fetched] at fetched'
          cases fetched'
          rw [ih following']

section Rename

variable {other : Nat → Option υ → Option (List β × Option υ)} {embed : τ → υ} {name : α → γ}
  {name' : β → γ}

/-- Two listings whose pages agree under a name return pages with the same names. -/
theorem rename
    (agree : ∀ k token, (other k (token.map embed)).map (fun result =>
        (result.1.map name', result.2)) =
      (fetch k token).map fun result => (result.1.map name, result.2.map embed))
    {k : Nat} {token : Option τ} {pages : List (List α)} (listed : Pages fetch k token pages) :
    ∃ pages', Pages other k (token.map embed) pages' ∧
      pages'.map (List.map name') = pages.map (List.map name) := by
  induction listed with
  | @last k token page fetched =>
      have same := agree k token
      rw [fetched] at same
      obtain ⟨⟨page', next⟩, fetched', equal⟩ := Option.map_eq_some_iff.mp same
      obtain ⟨names, rfl⟩ := Prod.mk.inj equal
      exact ⟨[page'], .last fetched', by simpa using names⟩
  | @more k token page next rest fetched _ ih =>
      have same := agree k token
      rw [fetched] at same
      obtain ⟨⟨page', next'⟩, fetched', equal⟩ := Option.map_eq_some_iff.mp same
      obtain ⟨names, rfl⟩ := Prod.mk.inj equal
      obtain ⟨rest', following', restNames⟩ := ih
      refine ⟨page' :: rest', .more fetched' following', ?_⟩
      rw [List.map_cons, List.map_cons, restNames]
      exact congrArg (· :: _) names

theorem of_rename
    (agree : ∀ k token, (other k (token.map embed)).map (fun result =>
        (result.1.map name', result.2)) =
      (fetch k token).map fun result => (result.1.map name, result.2.map embed))
    {k : Nat} {token : Option τ} {pages' : List (List β)}
    (listed : Pages other k (token.map embed) pages') :
    ∃ pages, Pages fetch k token pages ∧
      pages'.map (List.map name') = pages.map (List.map name) := by
  induction pages' generalizing k token with
  | nil => cases listed
  | cons page' rest' ih =>
      have same := agree k token
      cases listed with
      | last fetched' =>
          rw [fetched'] at same
          obtain ⟨⟨page, next⟩, fetched, equal⟩ := Option.map_eq_some_iff.mp same.symm
          obtain ⟨names, none⟩ := Prod.mk.inj equal
          rw [Option.map_eq_none_iff] at none
          subst none
          exact ⟨[page], .last fetched, by simpa using names.symm⟩
      | @more _ _ _ next' _ fetched' following' =>
          rw [fetched'] at same
          obtain ⟨⟨page, next⟩, fetched, equal⟩ := Option.map_eq_some_iff.mp same.symm
          obtain ⟨names, found⟩ := Prod.mk.inj equal
          obtain ⟨token', rfl, rfl⟩ := Option.map_eq_some_iff.mp found
          obtain ⟨rest, following, restNames⟩ := @ih (k + 1) (some token') following'
          refine ⟨page :: rest, .more fetched following, ?_⟩
          rw [List.map_cons, List.map_cons, restNames]
          exact congrArg (· :: _) names.symm

end Rename

end Pages

/-- Follow at most `fuel` tokens. -/
def collect (fetch : Nat → Option τ → Option (List α × Option τ)) :
    Nat → Nat → Option τ → Option (List (List α))
  | 0, _, _ => none
  | fuel + 1, k, token =>
      match fetch k token with
      | none => none
      | some (page, none) => some [page]
      | some (page, some next) => (collect fetch fuel (k + 1) (some next)).map (page :: ·)

theorem pages_of_collect {fetch : Nat → Option τ → Option (List α × Option τ)} {fuel k : Nat}
    {token : Option τ} {pages : List (List α)} (collected : collect fetch fuel k token = some pages) :
    Pages fetch k token pages := by
  induction fuel generalizing k token pages with
  | zero => cases collected
  | succ fuel ih =>
      unfold collect at collected
      split at collected
      · cases collected
      · rename_i page fetched
        cases collected
        exact .last fetched
      · rename_i page next fetched
        obtain ⟨rest, following, rfl⟩ := Option.map_eq_some_iff.mp collected
        exact .more fetched (ih following)

/-- A sorted list of rows, and the rows that lie beyond a token. -/
structure Keyset (α τ : Type) where
  rows : List α
  before : α → α → Prop
  asymm : ∀ x y, before x y → ¬before y x
  sorted : rows.Pairwise before
  beyond : τ → α → Bool
  upward : ∀ token x y, before x y → beyond token x = true → beyond token y = true
  cursor : α → τ

namespace Keyset

variable (keyset : Keyset α τ)

def remaining (token : Option τ) : List α :=
  match token with
  | none => keyset.rows
  | some token => keyset.rows.filter (keyset.beyond token)

/-- The token of a row selects the rows after it. -/
def Exact (x : α) : Prop :=
  ∀ y ∈ keyset.rows, keyset.beyond (keyset.cursor x) y = true ↔ keyset.before x y

/-- The request for a page of `size` rows. -/
def fetch (size : Nat) (token : Option τ) : List α × Option τ :=
  let page := (keyset.remaining token).take size
  (page, if size ≤ page.length then page.getLast?.map keyset.cursor else none)

/-- Every row that ends a full page of a list has an exact token. -/
def FullPagesExact (size : Nat) (rows : List α) : Prop :=
  ∀ k x, rows[(k + 1) * size - 1]? = some x → keyset.Exact x

/-- So has every row that ends a full page before the limit. -/
def PagesExact (size : Nat) (limit : Option Nat) (rows : List α) : Prop :=
  ∀ k x, (∀ most ∈ limit, (k + 1) * size < most) → rows[(k + 1) * size - 1]? = some x →
    keyset.Exact x

variable {keyset}

theorem nodup : keyset.rows.Nodup :=
  keyset.sorted.imp fun {x y} first same => by
    subst same
    exact keyset.asymm x x first first

/-- The rows beyond a token are the end of the list. -/
theorem filter_suffix (token : τ) : keyset.rows.filter (keyset.beyond token) <:+ keyset.rows := by
  have sorted := keyset.sorted
  generalize keyset.rows = rows at sorted
  induction rows with
  | nil => exact List.suffix_refl _
  | cons x rows ih =>
      obtain ⟨first, rest⟩ := List.pairwise_cons.mp sorted
      cases selected : keyset.beyond token x with
      | true =>
          have all : ∀ y ∈ x :: rows, keyset.beyond token y = true := by
            intro y member
            obtain rfl | later := List.mem_cons.mp member
            · exact selected
            · exact keyset.upward token x y (first y later) selected
          exact ⟨[], List.filter_eq_self.mpr all⟩
      | false =>
          rw [List.filter_cons_of_neg (by simp [selected])]
          exact (ih rest).trans (List.suffix_cons x rows)

/-- The rows after a row are those that follow it in the list. -/
theorem before_iff_of_split {front back : List α} {x y : α}
    (split : keyset.rows = front ++ x :: back) (member : y ∈ keyset.rows) :
    keyset.before x y ↔ y ∈ back := by
  have sorted := keyset.sorted
  rw [split, List.pairwise_append, List.pairwise_cons] at sorted
  obtain ⟨_, ⟨later, _⟩, earlier⟩ := sorted
  refine ⟨fun after => ?_, later y⟩
  rw [split, List.mem_append, List.mem_cons] at member
  obtain inFront | rfl | inBack := member
  · exact absurd after (keyset.asymm _ _ (earlier y inFront x (List.mem_cons_self ..)))
  · exact absurd after (keyset.asymm _ _ after)
  · exact inBack

/-- A token is exact when it selects what follows the row. -/
theorem exact_iff_of_split {front back : List α} {x : α}
    (split : keyset.rows = front ++ x :: back) :
    keyset.Exact x ↔ keyset.remaining (some (keyset.cursor x)) = back := by
  constructor
  · intro selected
    have inside : ∀ y, y ∈ front ∨ y = x ∨ y ∈ back → y ∈ keyset.rows := by
      intro y member
      simpa [split] using member
    have follows := fun y member =>
      (selected y member).trans (before_iff_of_split split member)
    have distinct := keyset.nodup
    rw [split, List.nodup_append, List.nodup_cons] at distinct
    obtain ⟨_, ⟨notBack, _⟩, apart⟩ := distinct
    have inFront : front.filter (keyset.beyond (keyset.cursor x)) = [] := by
      rw [List.filter_eq_nil_iff]
      intro y member beyond
      have later := (follows y (inside y (.inl member))).mp beyond
      exact apart y member y (List.mem_cons_of_mem _ later) rfl
    have own : keyset.beyond (keyset.cursor x) x = false := by
      rw [Bool.eq_false_iff]
      exact fun beyond => notBack ((follows x (inside x (.inr (.inl rfl)))).mp beyond)
    have inBack : back.filter (keyset.beyond (keyset.cursor x)) = back :=
      List.filter_eq_self.mpr fun y member =>
        (follows y (inside y (.inr (.inr member)))).mpr member
    rw [remaining, split, List.filter_append, inFront, List.filter_cons_of_neg (by simp [own]),
      inBack, List.nil_append]
  · intro selects y member
    rw [before_iff_of_split split member, ← selects, remaining, List.mem_filter]
    exact ⟨fun beyond => ⟨member, beyond⟩, And.right⟩

/-- Two ends of the list that begin with the same row are equal. -/
theorem suffix_eq_of_head {first second : List α} {x : α} (hfirst : x :: first <:+ keyset.rows)
    (hsecond : x :: second <:+ keyset.rows) : first = second := by
  obtain ⟨front, split⟩ := hfirst
  obtain ⟨front', split'⟩ := hsecond
  have distinct := keyset.nodup
  rw [← split, List.nodup_append, List.nodup_cons] at distinct
  have absent : x ∉ front := fun member =>
    distinct.2.2 x member x (List.mem_cons_self ..) rfl
  have same := split.trans split'.symm
  exact ((List.append_cons_inj_of_notMem absent distinct.2.1.1).mp same).2.2

/-- A full page ends with a row whose token is returned. -/
theorem fetch_full {size : Nat} {token : Option τ} (positive : 0 < size)
    (full : size ≤ (keyset.remaining token).length) :
    ∃ x, (keyset.remaining token)[size - 1]? = some x ∧
      keyset.fetch size token = ((keyset.remaining token).take size, some (keyset.cursor x)) := by
  have inside : size - 1 < (keyset.remaining token).length := by omega
  refine ⟨(keyset.remaining token)[size - 1], List.getElem?_eq_getElem inside, ?_⟩
  have length : ((keyset.remaining token).take size).length = size := by
    rw [List.length_take]
    omega
  simp only [fetch, length, Nat.le_refl, if_true, List.getLast?_eq_getElem?, List.getElem?_take]
  rw [if_pos (by omega), List.getElem?_eq_getElem inside]
  rfl

theorem fetch_partial {size : Nat} {token : Option τ}
    (short : (keyset.remaining token).length < size) :
    keyset.fetch size token = (keyset.remaining token, none) := by
  have whole : (keyset.remaining token).take size = keyset.remaining token :=
    List.take_of_length_le (Nat.le_of_lt short)
  simp only [fetch, whole]
  rw [if_neg (Nat.not_le.mpr short)]

/-- The rows from a full page on, split at the row that ends it. -/
theorem split_at_page {rows : List α} {size : Nat} (positive : 0 < size) {x : α}
    (ends : rows[size - 1]? = some x) :
    rows = rows.take (size - 1) ++ x :: rows.drop size := by
  obtain ⟨inside, rfl⟩ := List.getElem?_eq_some_iff.mp ends
  have step : rows.drop (size - 1) = rows[size - 1] :: rows.drop size := by
    rw [List.drop_eq_getElem_cons inside, Nat.sub_add_cancel positive]
  rw [← step, List.take_append_drop]

theorem pagesExact_drop {size : Nat} (positive : 0 < size) {limit : Option Nat}
    (room : ∀ most ∈ limit, size < most) {rows : List α} {x : α} (ends : rows[size - 1]? = some x) :
    keyset.PagesExact size limit rows ↔
      keyset.Exact x ∧ keyset.PagesExact size (limit.map (· - size)) (rows.drop size) := by
  have shift : ∀ k, (rows.drop size)[(k + 1) * size - 1]? = rows[(k + 2) * size - 1]? := by
    intro k
    rw [List.getElem?_drop]
    congr 1
    have : (k + 2) * size = size + (k + 1) * size := by ring
    have : 0 < (k + 1) * size := Nat.mul_pos (Nat.succ_pos k) positive
    omega
  have within : ∀ k, (∀ left ∈ limit.map (· - size), (k + 1) * size < left) ↔
      ∀ most ∈ limit, (k + 2) * size < most := by
    intro k
    have : (k + 2) * size = size + (k + 1) * size := by ring
    cases limit with
    | none => simp
    | some most =>
        simp only [Option.map_some, Option.mem_some, forall_eq']
        omega
  constructor
  · intro exact'
    refine ⟨exact' 0 x (by simpa using room) (by simpa using ends), fun k y inside hy => ?_⟩
    exact exact' (k + 1) y ((within k).mp inside) (by rwa [← shift])
  · rintro ⟨first, rest⟩ k y inside hy
    cases k with
    | zero =>
        have same : x = y := by simpa [ends] using hy
        rw [← same]
        exact first
    | succ k => exact rest k y ((within k).mpr inside) (by rwa [shift])

theorem pagesExact_of_short {size : Nat} {limit : Option Nat} {rows : List α}
    (short : rows.length < size) : keyset.PagesExact size limit rows := by
  intro k x _ hx
  obtain ⟨inside, _⟩ := List.getElem?_eq_some_iff.mp hx
  have : size ≤ (k + 1) * size := Nat.le_mul_of_pos_left _ (Nat.succ_pos k)
  omega

theorem pagesExact_none {size : Nat} {rows : List α} :
    keyset.PagesExact size none rows ↔ keyset.FullPagesExact size rows := by
  simp [PagesExact, FullPagesExact]

theorem fullPagesExact_drop {size : Nat} (positive : 0 < size) {rows : List α} {x : α}
    (ends : rows[size - 1]? = some x) :
    keyset.FullPagesExact size rows ↔
      keyset.Exact x ∧ keyset.FullPagesExact size (rows.drop size) := by
  rw [← pagesExact_none, ← pagesExact_none]
  exact pagesExact_drop positive (fun _ (given : _ ∈ none) => nomatch given) ends

theorem fullPagesExact_of_short {size : Nat} {rows : List α} (short : rows.length < size) :
    keyset.FullPagesExact size rows :=
  pagesExact_none.mp (pagesExact_of_short short)

/-- A token that selects the same first row selects the same rows. -/
theorem remaining_eq_of_head {token : τ} {rows : List α} (suffix : rows <:+ keyset.rows)
    (head : (keyset.remaining (some token)).head? = rows.head?) :
    keyset.remaining (some token) = rows := by
  have selected : keyset.remaining (some token) <:+ keyset.rows := keyset.filter_suffix token
  generalize keyset.remaining (some token) = remaining at head selected
  cases remaining with
  | nil => exact (List.head?_eq_none_iff.mp head.symm).symm
  | cons x first =>
      obtain ⟨second, rfl⟩ : ∃ second, rows = x :: second := by
        cases rows with
        | nil => cases head
        | cons y second =>
            cases head
            exact ⟨second, rfl⟩
      rw [suffix_eq_of_head selected suffix]

section Listing

variable {size : Nat} {fetch : Nat → Option τ → Option (List α × Option τ)}

/-- The pages that follow a token begin where the rows it selects do. -/
theorem remaining_of_pages (positive : 0 < size)
    (fetches : ∀ k token, fetch k token = some (keyset.fetch size token)) {k : Nat} {token : τ}
    {pages : List (List α)} (listed : Pages fetch k (some token) pages)
    (suffix : pages.flatten <:+ keyset.rows) : keyset.remaining (some token) = pages.flatten := by
  by_cases full : size ≤ (keyset.remaining (some token)).length
  · obtain ⟨x, _, whole⟩ := keyset.fetch_full positive full
    obtain ⟨a, rest, selected⟩ : ∃ a rest, keyset.remaining (some token) = a :: rest :=
      List.exists_cons_of_length_pos (Nat.lt_of_lt_of_le positive full)
    have begins : ∃ others, pages.flatten = a :: others := by
      obtain ⟨count, rfl⟩ := Nat.exists_eq_succ_of_ne_zero positive.ne'
      cases listed with
      | last fetched =>
          rw [fetches, whole] at fetched
          cases fetched
      | more fetched _ =>
          rw [fetches, whole, selected] at fetched
          cases fetched
          exact ⟨_, rfl⟩
    obtain ⟨others, flat⟩ := begins
    exact keyset.remaining_eq_of_head suffix (by rw [selected, flat]; rfl)
  · have partialPage := keyset.fetch_partial (Nat.lt_of_not_le full)
    cases listed with
    | last fetched =>
        rw [fetches, partialPage] at fetched
        cases fetched
        simp
    | more fetched _ =>
        rw [fetches, partialPage] at fetched
        cases fetched

/-- Pages never end if each of some tokens leads to such a token again. -/
theorem not_pages (positive : 0 < size)
    (fetches : ∀ k token, fetch k token = some (keyset.fetch size token))
    {stuck : Option τ → Prop}
    (stays : ∀ token, stuck token → ∃ x, (keyset.remaining token)[size - 1]? = some x ∧
      stuck (some (keyset.cursor x)))
    {k : Nat} {token : Option τ} {pages : List (List α)} (first : stuck token) :
    ¬Pages fetch k token pages := by
  have whole : ∀ token, stuck token → ∃ x page, keyset.fetch size token =
      (page, some (keyset.cursor x)) ∧ stuck (some (keyset.cursor x)) := by
    intro token again
    obtain ⟨x, ends, next⟩ := stays token again
    obtain ⟨inside, _⟩ := List.getElem?_eq_some_iff.mp ends
    obtain ⟨y, same, fetched⟩ := @fetch_full _ _ keyset size token positive (by omega)
    cases ends.symm.trans same
    exact ⟨x, _, fetched, next⟩
  intro listed
  induction listed with
  | @last k token page fetched =>
      obtain ⟨x, page, answered, _⟩ := whole token first
      rw [fetches, answered] at fetched
      cases fetched
  | @more k token page next rest fetched _ ih =>
      obtain ⟨x, page, answered, again⟩ := whole token first
      rw [fetches, answered] at fetched
      cases fetched
      exact ih again

/-- Pages of one row never end if some row lies beyond its own token and those of the
rows before it. -/
theorem not_pages_of_beyond
    (fetches : ∀ k token, fetch k token = some (keyset.fetch 1 token)) {row : α}
    (member : row ∈ keyset.rows)
    (again : ∀ x ∈ keyset.rows, x = row ∨ keyset.before x row →
      keyset.beyond (keyset.cursor x) row = true)
    {k : Nat} {pages : List (List α)} : ¬Pages fetch k none pages := by
  refine @not_pages _ _ keyset 1 fetch Nat.one_pos fetches (fun token => row ∈ keyset.remaining token)
    (fun token left => ?_) k none pages member
  have inside : (keyset.remaining token).Sublist keyset.rows := by
    cases token with
    | none => exact List.Sublist.refl _
    | some token => exact List.filter_sublist
  have sorted := keyset.sorted.sublist inside
  cases remaining : keyset.remaining token with
  | nil =>
      rw [remaining] at left
      cases left
  | cons x rest =>
      rw [remaining] at left inside sorted
      have upTo : x = row ∨ keyset.before x row :=
        (List.mem_cons.mp left).imp Eq.symm ((List.pairwise_cons.mp sorted).1 row)
      exact ⟨x, rfl, List.mem_filter.mpr
        ⟨member, again x (inside.subset (List.mem_cons_self ..)) upTo⟩⟩

/-- The row that ends a full page, with the list around it. -/
theorem split_of_suffix (positive : 0 < size) {rows : List α} (suffix : rows <:+ keyset.rows)
    {x : α} (ends : rows[size - 1]? = some x) :
    ∃ front, keyset.rows = front ++ x :: rows.drop size := by
  obtain ⟨front, whole⟩ := suffix
  refine ⟨front ++ rows.take (size - 1), ?_⟩
  rw [List.append_assoc, ← split_at_page positive ends, whole]

/-- Following tokens from an end of the list lists it exactly when the tokens
of the rows that end full pages are exact. -/
theorem pages_iff (positive : 0 < size)
    (fetches : ∀ k token, fetch k token = some (keyset.fetch size token)) (k : Nat)
    (token : Option τ) (suffix : keyset.remaining token <:+ keyset.rows) :
    (∃ pages, Pages fetch k token pages ∧ pages.flatten = keyset.remaining token) ↔
      keyset.FullPagesExact size (keyset.remaining token) := by
  constructor
  · rintro ⟨pages, listed, complete⟩
    induction listed with
    | @last k token page fetched =>
        rw [fetches, Option.some.injEq] at fetched
        by_cases full : size ≤ (keyset.remaining token).length
        · obtain ⟨x, _, whole⟩ := keyset.fetch_full positive full
          rw [whole] at fetched
          cases fetched
        · exact keyset.fullPagesExact_of_short (Nat.lt_of_not_le full)
    | @more k token page next rest fetched following ih =>
        rw [fetches, Option.some.injEq] at fetched
        by_cases full : size ≤ (keyset.remaining token).length
        · obtain ⟨x, ends, whole⟩ := keyset.fetch_full positive full
          rw [whole] at fetched
          cases fetched
          rw [List.flatten_cons] at complete
          have restComplete : rest.flatten = (keyset.remaining token).drop size :=
            List.append_cancel_left (complete.trans (List.take_append_drop size _).symm)
          have restSuffix : rest.flatten <:+ keyset.rows := by
            rw [restComplete]
            exact (List.drop_suffix size _).trans suffix
          have selected := keyset.remaining_of_pages positive fetches following restSuffix
          obtain ⟨front, split⟩ := keyset.split_of_suffix positive suffix ends
          rw [fullPagesExact_drop positive ends, exact_iff_of_split split, selected, restComplete]
          refine ⟨rfl, ?_⟩
          rw [← restComplete, ← selected]
          exact ih (keyset.filter_suffix _) selected.symm
        · rw [keyset.fetch_partial (Nat.lt_of_not_le full)] at fetched
          cases fetched
  · intro exact'
    -- each full page leaves fewer rows
    induction hlength : (keyset.remaining token).length using Nat.strong_induction_on
      generalizing k token with
    | h length ih =>
        by_cases full : size ≤ (keyset.remaining token).length
        · obtain ⟨x, ends, whole⟩ := keyset.fetch_full positive full
          obtain ⟨front, split⟩ := keyset.split_of_suffix positive suffix ends
          obtain ⟨exactX, exactRest⟩ := (fullPagesExact_drop positive ends).mp exact'
          have selected := (exact_iff_of_split split).mp exactX
          have shorter : (keyset.remaining (some (keyset.cursor x))).length < length := by
            rw [selected, List.length_drop]
            omega
          obtain ⟨rest, following, complete⟩ := ih _ shorter (k + 1) (some (keyset.cursor x))
            (keyset.filter_suffix _) (by rw [selected]; exact exactRest) rfl
          refine ⟨(keyset.remaining token).take size :: rest, .more ?_ following, ?_⟩
          · rw [fetches, whole]
          · rw [List.flatten_cons, complete, selected, List.take_append_drop]
        · refine ⟨[keyset.remaining token], .last ?_, by simp⟩
          rw [fetches, keyset.fetch_partial (Nat.lt_of_not_le full)]

theorem mem_rows_of_pages
    (fetches : ∀ k token, fetch k token = some (keyset.fetch size token)) {k : Nat}
    {token : Option τ} {pages : List (List α)} (listed : Pages fetch k token pages) :
    ∀ x ∈ pages.flatten, x ∈ keyset.rows := by
  have selected : ∀ token, ∀ x ∈ (keyset.fetch size token).1, x ∈ keyset.rows := by
    intro token x member
    have remains : x ∈ keyset.remaining token := List.mem_of_mem_take member
    cases token with
    | none => exact remains
    | some token => exact (List.mem_filter.mp remains).1
  induction listed with
  | @last k token page fetched =>
      rw [fetches, Option.some.injEq] at fetched
      have inside := selected token
      rw [fetched] at inside
      simpa using inside
  | @more k token page next rest fetched _ ih =>
      rw [fetches, Option.some.injEq] at fetched
      have inside := selected token
      rw [fetched] at inside
      intro x member
      rw [List.flatten_cons, List.mem_append] at member
      exact member.elim (inside x) (ih x)

/-- No page is longer than requested. -/
theorem length_le_of_pages
    (fetches : ∀ k token, fetch k token = some (keyset.fetch size token)) {k : Nat}
    {token : Option τ} {pages : List (List α)} (listed : Pages fetch k token pages) :
    ∀ page ∈ pages, page.length ≤ size := by
  have bound : ∀ token, (keyset.fetch size token).1.length ≤ size :=
    fun token => List.length_take_le ..
  induction listed with
  | @last k token page fetched =>
      rw [fetches, Option.some.injEq] at fetched
      have := bound token
      rw [fetched] at this
      simpa using this
  | @more k token page next rest fetched _ ih =>
      rw [fetches, Option.some.injEq] at fetched
      have := bound token
      rw [fetched] at this
      simpa using ⟨this, ih⟩

end Listing

end Keyset

end Ora.Library
