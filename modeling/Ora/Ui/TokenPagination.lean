import Ora.Library.PageWalk

/-!
# Token-based pagination

`useTokenPagination` of `ui/src/util/pagination.ts`.  The API only supports moving
forward with page tokens, so the tokens of visited pages are remembered.  A token
is not empty.
-/

namespace Ora.Ui

open Ora.Library

variable {Q K τ α : Type}

/-- The pages of the query `key`, the last one being known once the page after it
turned out to be empty. -/
structure PageState (K τ : Type) where
  key : K
  page : Nat
  tokens : List (Option τ)
  lastPage : Option Nat
  deriving DecidableEq, Repr

structure PageResult (K τ : Type) where
  key : K
  page : Nat
  items : Nat
  nextPageToken : Option τ
  deriving DecidableEq, Repr

/-- `DataTablePageEvent` -/
structure PageEvent where
  page : Nat
  rows : Nat
  deriving DecidableEq, Repr

def firstPage (key : K) : PageState K τ := ⟨key, 0, [none], none⟩

/-- The key is made of the filters and the ordering, the `query`, and the page size
`rows`.  The `saved` state is what is remembered under the ID, if there is one. -/
structure Pagination (Q τ : Type) where
  query : Q
  rows : Nat
  count : Option Nat
  state : PageState (Q × Nat) τ
  result : Option (PageResult (Q × Nat) τ)
  cacheId : Bool
  saved : Option (PageState (Q × Nat) τ)

namespace Pagination

variable [DecidableEq Q]

def key (pages : Pagination Q τ) : Q × Nat := (pages.query, pages.rows)

def useTokenPagination (query : Q) (rows : Nat) (count : Option Nat) (cacheId : Bool)
    (saved : Option (PageState (Q × Nat) τ)) : Pagination Q τ :=
  let state :=
    match if cacheId then saved else none with
    | some saved => if saved.key = (query, rows) then saved else firstPage (query, rows)
    | none => firstPage (query, rows)
  ⟨query, rows, count, state, none, cacheId, saved⟩

def current (pages : Pagination Q τ) : PageState (Q × Nat) τ :=
  if pages.state.key = pages.key then pages.state else firstPage pages.key

def page (pages : Pagination Q τ) : Nat := pages.current.page

def first (pages : Pagination Q τ) : Nat := pages.page * pages.rows

def pageToken (pages : Pagination Q τ) : Option τ := pages.current.tokens[pages.page]?.join

/-- The result for the current page, if it has been loaded. -/
def loaded (pages : Pagination Q τ) : Option (PageResult (Q × Nat) τ) :=
  pages.result.filter fun result => result.key = pages.key && result.page = pages.page

def hasNext (pages : Pagination Q τ) : Bool :=
  match pages.loaded with
  | none => false
  | some result =>
      if result.nextPageToken.isNone || result.items < pages.rows then
        false
      else if pages.current.lastPage.any (· ≤ pages.page) then
        false
      else
        pages.count.all fun count => pages.first + result.items < count

def totalRecords (pages : Pagination Q τ) : Nat :=
  match pages.loaded with
  -- Loading, moving forward is not possible yet.
  | none => pages.first + 1
  | some result =>
      let seen := pages.first + result.items
      if pages.hasNext then max (pages.count.getD 0) (seen + 1) else seen

def save (pages : Pagination Q τ) (next : PageState (Q × Nat) τ) : Pagination Q τ :=
  { pages with state := next, saved := if pages.cacheId then some next else pages.saved }

/-- Updates the state after a page was loaded. -/
def update [DecidableEq τ] (pages : Pagination Q τ) (forKey : Q × Nat) (forPage items : Nat)
    (nextPageToken : Option τ) : Pagination Q τ :=
  if forKey ≠ pages.key ∨ forPage ≠ pages.page then
    pages
  else
    let updated := { pages with result := some ⟨forKey, forPage, items, nextPageToken⟩ }
    let state := updated.current
    if items = 0 ∧ 0 < forPage then
      -- The previous page was the last one, even though it had a page token.
      updated.save { state with page := forPage - 1, lastPage := some (forPage - 1) }
    else if state.lastPage = some forPage ∧ nextPageToken ≠ state.tokens[forPage + 1]?.join then
      -- The last page changed, there might be more pages now.
      updated.save { state with lastPage := none }
    else
      updated

def onPage (pages : Pagination Q τ) (event : PageEvent) : Pagination Q τ :=
  if event.rows ≠ pages.rows then
    { pages with rows := event.rows }
  else
    let state := pages.current
    match pages.loaded.bind PageResult.nextPageToken with
    | some next =>
        if event.page = state.page + 1 then
          pages.save { state with
            page := event.page
            tokens := state.tokens.take event.page ++ [some next] }
        else if event.page < state.page then
          pages.save { state with page := event.page }
        else
          pages
    | none =>
        if event.page < state.page then pages.save { state with page := event.page } else pages

/-- The token of a page came with the page before it, and so on. -/
def Asked (answers : K → Option τ → List α → Option τ → Prop) (key : K) (page : Nat)
    (token : Option τ) : Prop :=
  (∃ earlier, PageWalk (answers key) earlier token page) ∧ (0 < page → token.isSome = true)

structure Walked (answers : K → Option τ → List α → Option τ → Prop) (state : PageState K τ) :
    Prop where
  tokens : ∀ page token, state.tokens[page]? = some token → Asked answers state.key page token
  inside : state.page < state.tokens.length
  last : ∀ last, state.lastPage = some last → ∃ token next,
    Asked answers state.key (last + 1) token ∧ answers state.key token [] next

/-- What is known about the pages was answered by the server. -/
structure Known (answers : Q × Nat → Option τ → List α → Option τ → Prop)
    (pages : Pagination Q τ) : Prop where
  state : Walked answers pages.state
  result : ∀ result, pages.result = some result → ∃ token items,
    Asked answers result.key result.page token ∧
      answers result.key token items result.nextPageToken ∧ items.length = result.items
  saved : ∀ state, pages.saved = some state → Walked answers state

section

variable {answers : K → Option τ → List α → Option τ → Prop} {key : K}

theorem asked_first : Asked answers key 0 none :=
  ⟨⟨[], .nothing⟩, fun positive => absurd positive (Nat.lt_irrefl 0)⟩

/-- A token that came with a page is for the next one. -/
theorem Asked.next {page : Nat} {token : Option τ} {items : List α} {next : τ}
    (asked : Asked answers key page token) (answered : answers key token items (some next)) :
    Asked answers key (page + 1) (some next) := by
  refine ⟨?_, fun _ => rfl⟩
  obtain ⟨⟨earlier, walk⟩, later⟩ := asked
  cases token with
  | none =>
      have start : page = 0 := by
        by_contra positive
        cases later (Nat.pos_of_ne_zero positive)
      subst start
      exact ⟨items, .first answered⟩
  | some token => exact ⟨earlier ++ items, .more walk answered⟩

theorem firstPage_walked (key : K) : Walked answers (firstPage key) := by
  refine ⟨fun page token found => ?_, Nat.one_pos, fun _ known => by cases known⟩
  obtain ⟨inside, rfl⟩ := List.getElem?_eq_some_iff.mp found
  cases page with
  | zero => exact asked_first
  | succ page => simp [firstPage] at inside

end

variable {answers : Q × Nat → Option τ → List α → Option τ → Prop} {pages : Pagination Q τ}

theorem current_key (pages : Pagination Q τ) : pages.current.key = pages.key := by
  unfold current
  split
  · rename_i same
    exact same
  · rfl

/-- A state that is saved for the key is the current one. -/
theorem save_page {next : PageState (Q × Nat) τ} (same : next.key = pages.key) :
    (pages.save next).page = next.page := by
  unfold page current
  exact congrArg PageState.page (if_pos same)

theorem Known.current (known : Known answers pages) : Walked answers pages.current := by
  unfold Pagination.current
  split
  · exact known.state
  · exact firstPage_walked _

/-- The token that a page is asked for with is the one for this page. -/
theorem Known.asked (known : Known answers pages) :
    Asked answers pages.key pages.page pages.pageToken := by
  have walked := known.current
  have found := List.getElem?_eq_getElem walked.inside
  have asked := walked.tokens _ _ found
  rw [current_key] at asked
  unfold pageToken page
  rw [found]
  exact asked

omit [DecidableEq Q] in
theorem Known.save {next : PageState (Q × Nat) τ} (known : Known answers pages)
    (walked : Walked answers next) : Known answers (pages.save next) := by
  refine ⟨walked, known.result, fun state saved => ?_⟩
  unfold Pagination.save at saved
  dsimp only at saved
  split at saved
  · cases saved
    exact walked
  · exact known.saved state saved

theorem useTokenPagination_known (query : Q) (rows : Nat) (count : Option Nat) (cacheId : Bool)
    {saved : Option (PageState (Q × Nat) τ)}
    (walked : ∀ state, saved = some state → Walked answers state) :
    Known answers (useTokenPagination query rows count cacheId saved) := by
  refine ⟨?_, fun _ known => absurd known (by simp [useTokenPagination]), walked⟩
  unfold useTokenPagination
  dsimp only
  split
  · rename_i state present
    split
    · refine walked state ?_
      split at present
      · exact present
      · cases present
    · exact firstPage_walked _
  · exact firstPage_walked _

variable [DecidableEq τ]

/-- An answer for the page that is shown is kept, and an empty page after the first
one leads back to the page before it. -/
theorem update_cases (pages : Pagination Q τ) (forKey : Q × Nat) (forPage items : Nat)
    (next : Option τ) :
    (forKey ≠ pages.key ∨ forPage ≠ pages.page) ∧ pages.update forKey forPage items next = pages ∨
    (forKey = pages.key ∧ forPage = pages.page) ∧ ∃ updated,
      updated = { pages with result := some ⟨forKey, forPage, items, next⟩ } ∧
      ((items = 0 ∧ 0 < forPage) ∧ pages.update forKey forPage items next =
          updated.save { updated.current with
            page := forPage - 1, lastPage := some (forPage - 1) } ∨
        ¬(items = 0 ∧ 0 < forPage) ∧ (pages.update forKey forPage items next = updated ∨
          pages.update forKey forPage items next =
            updated.save { updated.current with lastPage := none })) := by
  unfold update
  split
  · rename_i other
    exact .inl ⟨other, rfl⟩
  · rename_i same
    obtain ⟨sameKey, samePage⟩ := not_or.mp same
    refine .inr ⟨⟨not_not.mp sameKey, not_not.mp samePage⟩, _, rfl, ?_⟩
    dsimp only
    split
    · rename_i empty
      exact .inl ⟨empty, rfl⟩
    · rename_i kept
      refine .inr ⟨kept, ?_⟩
      split
      · exact .inr rfl
      · exact .inl rfl

theorem Known.update {forKey : Q × Nat} {forPage : Nat} {token : Option τ} {items : List α}
    {next : Option τ} (known : Known answers pages) (asked : Asked answers forKey forPage token)
    (answered : answers forKey token items next) :
    Known answers (pages.update forKey forPage items.length next) := by
  obtain ⟨_, same⟩ | ⟨⟨sameKey, samePage⟩, updated, rfl, rest⟩ :=
    update_cases pages forKey forPage items.length next
  · rw [same]
    exact known
  · have updatedKnown : Known answers
        { pages with result := some ⟨forKey, forPage, items.length, next⟩ } := by
      refine ⟨known.state, fun result found => ?_, known.saved⟩
      cases found
      exact ⟨token, items, asked, answered, rfl⟩
    have walked := updatedKnown.current
    have currentKey := current_key
      { pages with result := some ⟨forKey, forPage, items.length, next⟩ }
    obtain ⟨⟨empty, later⟩, same⟩ | ⟨_, same | same⟩ := rest
    · rw [same]
      refine updatedKnown.save ⟨walked.tokens, ?_, fun last found => ?_⟩
      · have inside := known.current.inside
        refine Nat.lt_of_le_of_lt (Nat.sub_le ..) ?_
        rw [samePage]
        exact inside
      · cases found
        dsimp only
        rw [currentKey, Nat.sub_add_cancel later]
        rw [List.length_eq_zero_iff] at empty
        subst empty
        rw [sameKey] at asked answered
        exact ⟨token, next, asked, answered⟩
    · rw [same]
      exact updatedKnown
    · rw [same]
      exact updatedKnown.save ⟨walked.tokens, walked.inside, fun _ found => by cases found⟩

omit [DecidableEq τ] in
theorem Known.onPage (known : Known answers pages) (event : PageEvent) :
    Known answers (pages.onPage event) := by
  have walked := known.current
  have back (earlier : event.page < pages.current.page) :
      Known answers (pages.save { pages.current with page := event.page }) :=
    known.save ⟨walked.tokens, Nat.lt_trans earlier walked.inside, walked.last⟩
  unfold Pagination.onPage
  split
  · exact ⟨known.state, known.result, known.saved⟩
  dsimp only
  split
  · rename_i next found
    split
    · rename_i following
      obtain ⟨result, loaded, token⟩ := Option.bind_eq_some_iff.mp found
      obtain ⟨present, here⟩ := Option.filter_eq_some_iff.mp loaded
      rw [Bool.and_eq_true, decide_eq_true_eq, decide_eq_true_eq] at here
      obtain ⟨asking, items, asked, answered, _⟩ := known.result result present
      rw [here.1, here.2] at asked
      rw [here.1, token] at answered
      have length : (pages.current.tokens.take event.page).length = event.page :=
        List.length_take_of_le (following ▸ walked.inside)
      refine known.save ⟨fun page other at_page => ?_, ?_, walked.last⟩
      · dsimp only at at_page ⊢
        obtain earlier | later := Nat.lt_or_ge page event.page
        · rw [List.getElem?_append_left (length.symm ▸ earlier)] at at_page
          exact walked.tokens page other
            ((List.getElem?_take_of_lt earlier).symm.trans at_page)
        · rw [List.getElem?_append_right (length.symm ▸ later), length] at at_page
          obtain ⟨inside, _⟩ := List.getElem?_eq_some_iff.mp at_page
          have same : page - event.page = 0 := Nat.lt_one_iff.mp inside
          rw [same] at at_page
          cases at_page
          have here : page = pages.page + 1 := by
            have following : event.page = pages.page + 1 := following
            omega
          rw [here, current_key]
          exact asked.next answered
      · simp only [List.length_append, length, List.length_singleton]
        exact Nat.lt_succ_self _
    · split
      · rename_i earlier
        exact back earlier
      · exact known
  · split
    · rename_i earlier
      exact back earlier
    · exact known

end Pagination

end Ora.Ui
