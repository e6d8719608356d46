import Ora.Library.Pagination

/-!
# Page servers

A list that is served in pages of any requested size up to the largest.  A
token stands for the rows that remain, and there is one exactly after a full
page, so that the size of the pages can change along the tokens.
-/

namespace Ora.Library

variable {α β γ τ υ : Type}

/-- A server of a list, whose items have the names in the list.  The first
argument of a request is its number. -/
structure PageServer (largest : Nat) (name : α → γ) (rows : List γ) (τ : Type) where
  request : Nat → Nat → Option τ → Option (List α × Option τ)
  remains : Option τ → List γ → Prop
  first : remains none rows
  serves : ∀ k size token rest, 0 < size → size ≤ largest → remains token rest →
    ∃ page next, request k size token = some (page, next) ∧ page.map name = rest.take size ∧
      if size ≤ rest.length then ∃ after, next = some after ∧ remains next (rest.drop size)
      else next = none

namespace PageServer

variable {largest : Nat} {name : α → γ} {rows rest : List γ}
  (server : PageServer largest name rows τ)

/-- A full page, with the token for what follows it. -/
theorem serves_full (k : Nat) {size : Nat} {token : Option τ} (positive : 0 < size)
    (allowed : size ≤ largest) (remaining : server.remains token rest) (full : size ≤ rest.length) :
    ∃ page after, server.request k size token = some (page, some after) ∧
      page.map name = rest.take size ∧ page.length = size ∧
      server.remains (some after) (rest.drop size) := by
  obtain ⟨page, next, answered, named, follows⟩ :=
    server.serves k size token rest positive allowed remaining
  rw [if_pos full] at follows
  obtain ⟨after, rfl, remains⟩ := follows
  refine ⟨page, after, answered, named, ?_, remains⟩
  rw [← List.length_map name, named, List.length_take]
  exact Nat.min_eq_left full

/-- A partial page is the last one. -/
theorem serves_partial (k : Nat) {size : Nat} {token : Option τ}
    (allowed : size ≤ largest) (remaining : server.remains token rest) (short : rest.length < size) :
    ∃ page, server.request k size token = some (page, none) ∧ page.map name = rest := by
  obtain ⟨page, next, answered, named, follows⟩ :=
    server.serves k size token rest (Nat.zero_lt_of_lt short) allowed remaining
  rw [if_neg (Nat.not_le.mpr short)] at follows
  subst follows
  exact ⟨page, answered, by rw [named, List.take_of_length_le (Nat.le_of_lt short)]⟩

/-- The tokens are positions in the list. -/
def ofList (largest : Nat) (rows : List α) : PageServer largest id rows Nat where
  request _ size token :=
    let rest := rows.drop (token.getD 0)
    some (rest.take size, if size ≤ rest.length then some (token.getD 0 + size) else none)
  remains token rest := rest = rows.drop (token.getD 0)
  first := rfl
  serves k size token rest _ _ remaining := by
    subst remaining
    refine ⟨_, _, rfl, List.map_id _, ?_⟩
    split
    · exact ⟨_, rfl, by rw [List.drop_drop, Option.getD_some]⟩
    · rfl

end PageServer

section Answers

variable {largest : Nat} {keyset : Keyset α τ} {name : α → γ} {name' : β → γ} {embed : τ → υ}
  {request : Nat → Nat → Option υ → Option (List β × Option υ)}

/-- The requests answer like the keyset, up to the names of the rows. -/
def Keyset.Answers (largest : Nat) (keyset : Keyset α τ) (name : α → γ) (name' : β → γ)
    (embed : τ → υ) (request : Nat → Nat → Option υ → Option (List β × Option υ)) : Prop :=
  ∀ k size token, 0 < size → size ≤ largest →
    (request k size (token.map embed)).map (fun result => (result.1.map name', result.2)) =
      some ((keyset.fetch size token).1.map name, (keyset.fetch size token).2.map embed)

theorem Keyset.Answers.full (agree : keyset.Answers largest name name' embed request) (k : Nat)
    {size : Nat} {token : Option τ} (positive : 0 < size) (allowed : size ≤ largest)
    (full : size ≤ (keyset.remaining token).length) :
    ∃ page x, request k size (token.map embed) = some (page, some (embed (keyset.cursor x))) ∧
      page.map name' = ((keyset.remaining token).take size).map name ∧ page.length = size ∧
      (keyset.remaining token)[size - 1]? = some x := by
  obtain ⟨x, ends, whole⟩ := keyset.fetch_full positive full
  have same := agree k size token positive allowed
  rw [whole] at same
  obtain ⟨⟨page, next⟩, answered, equal⟩ := Option.map_eq_some_iff.mp same
  obtain ⟨names, rfl⟩ := Prod.mk.inj equal
  refine ⟨page, x, answered, names, ?_, ends⟩
  rw [← List.length_map name', names, List.length_map, List.length_take, Nat.min_eq_left full]

theorem Keyset.Answers.partial_page (agree : keyset.Answers largest name name' embed request)
    (k : Nat) {size : Nat} {token : Option τ} (allowed : size ≤ largest)
    (short : (keyset.remaining token).length < size) :
    ∃ page, request k size (token.map embed) = some (page, none) ∧
      page.map name' = (keyset.remaining token).map name := by
  have same := agree k size token (Nat.zero_lt_of_lt short) allowed
  rw [keyset.fetch_partial short] at same
  obtain ⟨⟨page, next⟩, answered, equal⟩ := Option.map_eq_some_iff.mp same
  obtain ⟨names, rfl⟩ := Prod.mk.inj equal
  exact ⟨page, answered, names⟩

/-- A keyset whose tokens are exact, behind requests that answer like it. -/
def PageServer.ofKeyset (largest : Nat) (keyset : Keyset α τ)
    (exact : ∀ x ∈ keyset.rows, keyset.Exact x) (name : α → γ) (name' : β → γ) (embed : τ → υ)
    (request : Nat → Nat → Option υ → Option (List β × Option υ))
    (agree : keyset.Answers largest name name' embed request) :
    PageServer largest name' (keyset.rows.map name) υ where
  request := request
  remains token rest := ∃ token', token = token'.map embed ∧
    keyset.remaining token' <:+ keyset.rows ∧ rest = (keyset.remaining token').map name
  first := ⟨none, rfl, List.suffix_refl _, rfl⟩
  serves := by
    rintro k size _ _ positive allowed ⟨token, rfl, suffix, rfl⟩
    rw [List.length_map]
    by_cases full : size ≤ (keyset.remaining token).length
    · obtain ⟨page, x, answered, names, _, ends⟩ := agree.full k positive allowed full
      obtain ⟨front, split⟩ := keyset.split_of_suffix positive suffix ends
      have member : x ∈ keyset.rows := by
        rw [split]
        exact List.mem_append_right _ (List.mem_cons_self ..)
      have selected := (Keyset.exact_iff_of_split split).mp (exact x member)
      refine ⟨page, _, answered, by rw [names, List.map_take], ?_⟩
      rw [if_pos full]
      refine ⟨_, rfl, some (keyset.cursor x), rfl, ?_, ?_⟩
      · rw [selected]
        exact (List.drop_suffix size _).trans suffix
      · rw [selected, List.map_drop]
    · have short := Nat.lt_of_not_le full
      obtain ⟨page, answered, names⟩ := agree.partial_page k allowed short
      refine ⟨page, none, answered, ?_, by rw [if_neg full]⟩
      rw [names, List.take_of_length_le (by rw [List.length_map]; exact Nat.le_of_lt short)]

end Answers

end Ora.Library
