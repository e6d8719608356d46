import Ora.Library.MachineTime
import Ora.Library.PageServer

/-!
# Listings of the admin client

The streams of `list_jobs` and `list_schedules` of `ora/src/admin`, over a
server that answers in pages.  Both count what they have yielded in a `u32`.
-/

namespace Ora.Client

open Ora.Library

variable {α β γ τ υ : Type}

/-- `PAGE_SIZE` -/
def pageSize : Nat := 25

def limitReached (limit : Option Nat) (totalCount : Nat) : Bool :=
  limit.any fun limit => decide (limit ≤ totalCount)

/-- `total_count += 1` -/
def countOne (totalCount : Nat) : Nat :=
  (totalCount + 1) % (u32Max + 1)

/-- The size of the next page, there is none if the count exceeds the limit. -/
def nextPageSize (limit : Option Nat) (totalCount : Nat) : Option Nat :=
  match limit with
  | none => some pageSize
  | some limit => if totalCount ≤ limit then some (min pageSize (limit - totalCount)) else none

/-- What is yielded of a page of jobs, with the count after it. -/
def yieldJobs (limit : Option Nat) : Nat → List α → List α × Nat
  | totalCount, [] => ([], totalCount)
  | totalCount, job :: jobs =>
      if limitReached limit (countOne totalCount) then
        ([job], countOne totalCount)
      else
        ((job :: (yieldJobs limit (countOne totalCount) jobs).1),
          (yieldJobs limit (countOne totalCount) jobs).2)

/-- What `list_jobs` yields, if it ends within the requests. -/
def listJobs (request : Nat → Nat → Option τ → Option (List α × Option τ)) (limit : Option Nat) :
    Nat → Nat → Nat → Option τ → Option (List α)
  | 0, _, _, _ => none
  | requests + 1, k, totalCount, pageToken =>
      if limitReached limit totalCount then
        some []
      else do
        let size ← nextPageSize limit totalCount
        let (jobs, next) ← request k size pageToken
        match next with
        | none => some (yieldJobs limit totalCount jobs).1
        | some token =>
            (listJobs request limit requests (k + 1) (yieldJobs limit totalCount jobs).2
              (some token)).map ((yieldJobs limit totalCount jobs).1 ++ ·)

/-- What `list_schedules` yields, if it ends within the requests. -/
def listSchedules (request : Nat → Nat → Option τ → Option (List α × Option τ))
    (limit : Option Nat) : Nat → Nat → Nat → Option τ → Option (List α)
  | 0, _, _, _ => none
  | requests + 1, k, totalCount, nextPageToken =>
      if limitReached limit totalCount then
        some []
      else do
        let (schedules, next) ← request k (limit.elim 25 (min 25)) nextPageToken
        match next with
        | none => some schedules
        | some token =>
            (listSchedules request limit requests (k + 1)
              (schedules.foldl (fun totalCount _ => countOne totalCount) totalCount)
              (some token)).map (schedules ++ ·)

section Counting

variable {limit totalCount : Nat}

/-- The limit of a request is a `u32`. -/
def WordLimit (limit : Option Nat) : Prop :=
  ∀ most, limit = some most → most ≤ u32Max

theorem limitReached_some : limitReached (some limit) totalCount = true ↔ limit ≤ totalCount :=
  decide_eq_true_iff

theorem countOne_of_lt (word : limit ≤ u32Max) (below : totalCount < limit) :
    countOne totalCount = totalCount + 1 :=
  Nat.mod_eq_of_lt (by omega)

/-- A page within the limit is yielded whole. -/
theorem yieldJobs_some (word : limit ≤ u32Max) (jobs : List α)
    (within : totalCount + jobs.length ≤ limit) :
    yieldJobs (some limit) totalCount jobs = (jobs, totalCount + jobs.length) := by
  induction jobs generalizing totalCount with
  | nil => rfl
  | cons job jobs ih =>
      rw [List.length_cons] at within
      unfold yieldJobs
      rw [countOne_of_lt word (by omega)]
      split
      · rename_i reached
        have ends : jobs = [] := by
          rw [limitReached_some] at reached
          exact List.eq_nil_of_length_eq_zero (by omega)
        subst ends
        rfl
      · rw [ih (by omega), List.length_cons]
        congr 1
        omega

theorem yieldJobs_none (totalCount : Nat) (jobs : List α) :
    (yieldJobs none totalCount jobs).1 = jobs := by
  induction jobs generalizing totalCount with
  | nil => rfl
  | cons job jobs ih =>
      unfold yieldJobs
      rw [if_neg (by simp [limitReached])]
      exact congrArg (job :: ·) (ih _)

theorem count_of_le (word : limit ≤ u32Max) (schedules : List α)
    (within : totalCount + schedules.length ≤ limit) :
    schedules.foldl (fun totalCount _ => countOne totalCount) totalCount =
      totalCount + schedules.length := by
  induction schedules generalizing totalCount with
  | nil => rfl
  | cons schedule schedules ih =>
      rw [List.length_cons] at within ⊢
      rw [List.foldl_cons, countOne_of_lt word (by omega), ih (by omega)]
      omega

end Counting

section Request

variable {request : Nat → Nat → Option τ → Option (List α × Option τ)} {limit : Option Nat}
  {requests k totalCount size : Nat} {token : Option τ} {page : List α}

theorem listJobs_reached (reached : limitReached limit totalCount = true) :
    listJobs request limit (requests + 1) k totalCount token = some [] := by
  unfold listJobs
  rw [if_pos reached]

theorem listJobs_next {after : τ} (unreached : ¬limitReached limit totalCount = true)
    (sized : nextPageSize limit totalCount = some size)
    (answered : request k size token = some (page, some after)) :
    listJobs request limit (requests + 1) k totalCount token =
      (listJobs request limit requests (k + 1) (yieldJobs limit totalCount page).2 (some after)).map
        ((yieldJobs limit totalCount page).1 ++ ·) := by
  rw [listJobs, if_neg unreached, sized]
  simp only [Option.bind_eq_bind, Option.bind_some, answered]

theorem listJobs_last (unreached : ¬limitReached limit totalCount = true)
    (sized : nextPageSize limit totalCount = some size)
    (answered : request k size token = some (page, none)) :
    listJobs request limit (requests + 1) k totalCount token =
      some (yieldJobs limit totalCount page).1 := by
  rw [listJobs, if_neg unreached, sized]
  simp only [Option.bind_eq_bind, Option.bind_some, answered]

theorem listSchedules_reached (reached : limitReached limit totalCount = true) :
    listSchedules request limit (requests + 1) k totalCount token = some [] := by
  unfold listSchedules
  rw [if_pos reached]

theorem listSchedules_next {after : τ} (unreached : ¬limitReached limit totalCount = true)
    (requested : limit.elim 25 (min 25) = size)
    (answered : request k size token = some (page, some after)) :
    listSchedules request limit (requests + 1) k totalCount token =
      (listSchedules request limit requests (k + 1)
        (page.foldl (fun totalCount _ => countOne totalCount) totalCount) (some after)).map
          (page ++ ·) := by
  rw [listSchedules, if_neg unreached, requested]
  simp only [Option.bind_eq_bind, Option.bind_some, answered]

theorem listSchedules_last (unreached : ¬limitReached limit totalCount = true)
    (requested : limit.elim 25 (min 25) = size)
    (answered : request k size token = some (page, none)) :
    listSchedules request limit (requests + 1) k totalCount token = some page := by
  rw [listSchedules, if_neg unreached, requested]
  simp only [Option.bind_eq_bind, Option.bind_some, answered]

end Request

/-- How many rows may still be yielded, if they are limited. -/
def Left (limit : Option Nat) (totalCount : Nat) : Option Nat → Prop
  | none => limit = none
  | some left => ∃ most ≤ u32Max, limit = some most ∧ totalCount + left = most

section Left

variable {limit left : Option Nat} {totalCount : Nat}

theorem Left.first (word : WordLimit limit) : Left limit 0 limit := by
  cases limit with
  | none => rfl
  | some most => exact ⟨most, word most rfl, rfl, Nat.zero_add most⟩

theorem Left.reached_iff (count : Left limit totalCount left) :
    limitReached limit totalCount = true ↔ left = some 0 := by
  cases left with
  | none => simp [show limit = none from count, limitReached]
  | some left =>
      obtain ⟨most, _, rfl, rfl⟩ := count
      rw [limitReached_some, Option.some.injEq]
      omega

theorem Left.nextPageSize_eq (count : Left limit totalCount left) :
    nextPageSize limit totalCount = some (left.elim pageSize (min pageSize)) := by
  cases left with
  | none => rw [show limit = none from count]; rfl
  | some left =>
      obtain ⟨most, _, rfl, rfl⟩ := count
      unfold nextPageSize
      dsimp only
      rw [if_pos (Nat.le_add_right ..), Nat.add_sub_cancel_left, Option.elim_some]

/-- A page within the limit is yielded whole, and counted. -/
theorem Left.yields (count : Left limit totalCount left) (jobs : List α)
    (within : ∀ most ∈ left, jobs.length ≤ most) :
    (yieldJobs limit totalCount jobs).1 = jobs ∧
      Left limit (yieldJobs limit totalCount jobs).2 (left.map (· - jobs.length)) := by
  cases left with
  | none =>
      obtain rfl : limit = none := count
      exact ⟨yieldJobs_none totalCount jobs, rfl⟩
  | some left =>
      obtain ⟨most, word, rfl, rfl⟩ := count
      have short := within left rfl
      rw [yieldJobs_some word jobs (Nat.add_le_add_left short _)]
      refine ⟨rfl, _, word, rfl, ?_⟩
      dsimp only
      omega

end Left

section Listing

variable {largest : Nat} {keyset : Keyset α τ} {name : α → γ} {name' : β → γ} {embed : τ → υ}
  {request : Nat → Nat → Option υ → Option (List β × Option υ)} {limit left : Option Nat}
  {totalCount : Nat}

theorem size_pos (remains : left ≠ some 0) : 0 < left.elim pageSize (min pageSize) := by
  cases left with
  | none => decide
  | some left =>
      have : left ≠ 0 := fun zero => remains (by rw [zero])
      rw [Option.elim_some, pageSize]
      omega

theorem size_le (left : Option Nat) : left.elim pageSize (min pageSize) ≤ pageSize := by
  cases left with
  | none => exact Nat.le_refl _
  | some left => exact Nat.min_le_left ..

theorem size_within (most : Nat) (given : most ∈ left) :
    left.elim pageSize (min pageSize) ≤ most := by
  rw [Option.mem_def.mp given]
  exact Nat.min_le_right ..

/-- A full page is followed by what is listed from its token on. -/
theorem listJobs_full (agree : keyset.Answers largest name name' embed request)
    (room : pageSize ≤ largest) (count : Left limit totalCount left) (remains : left ≠ some 0)
    (k : Nat) {token : Option τ} {size : Nat} (sized : left.elim pageSize (min pageSize) = size)
    (full : size ≤ (keyset.remaining token).length) :
    ∃ page x total, page.map name' = ((keyset.remaining token).take size).map name ∧
      (keyset.remaining token)[size - 1]? = some x ∧ Left limit total (left.map (· - size)) ∧
      ∀ requests, listJobs request limit (requests + 1) k totalCount (token.map embed) =
        (listJobs request limit requests (k + 1) total (some (embed (keyset.cursor x)))).map
          (page ++ ·) := by
  subst sized
  obtain ⟨page, x, answered, names, length, ends⟩ :=
    agree.full k (size_pos remains) (Nat.le_trans (size_le left) room) full
  obtain ⟨whole, counted⟩ := count.yields page fun most given =>
    Nat.le_trans (Nat.le_of_eq length) (size_within most given)
  rw [length] at counted
  refine ⟨page, x, _, names, ends, counted, fun requests => ?_⟩
  rw [listJobs_next (mt count.reached_iff.mp remains) count.nextPageSize_eq answered, whole]

theorem listJobs_partial (agree : keyset.Answers largest name name' embed request)
    (room : pageSize ≤ largest) (count : Left limit totalCount left) (remains : left ≠ some 0)
    (k : Nat) {token : Option τ}
    (short : (keyset.remaining token).length < left.elim pageSize (min pageSize)) :
    ∃ page, page.map name' = (keyset.remaining token).map name ∧
      ∀ requests, listJobs request limit (requests + 1) k totalCount (token.map embed) =
        some page := by
  obtain ⟨page, answered, names⟩ :=
    agree.partial_page k (Nat.le_trans (size_le left) room) short
  have length : page.length = (keyset.remaining token).length := by
    rw [← List.length_map name', names, List.length_map]
  obtain ⟨whole, _⟩ := count.yields page fun most given => by
    have := size_within most given
    omega
  refine ⟨page, names, fun requests => ?_⟩
  rw [listJobs_last (mt count.reached_iff.mp remains) count.nextPageSize_eq answered, whole]

/-- The first row that is yielded is the first that is selected. -/
theorem listJobs_head (agree : keyset.Answers largest name name' embed request)
    (room : pageSize ≤ largest) (count : Left limit totalCount left) (remains : left ≠ some 0)
    {requests k : Nat} {token : Option τ} {yielded : List β}
    (done : listJobs request limit requests k totalCount (token.map embed) = some yielded) :
    (yielded.map name').head? = ((keyset.remaining token).map name).head? := by
  cases requests with
  | zero => cases done
  | succ requests =>
      by_cases full : left.elim pageSize (min pageSize) ≤ (keyset.remaining token).length
      · obtain ⟨page, x, total, names, ends, _, next⟩ :=
          listJobs_full agree room count remains k rfl full
        rw [next] at done
        obtain ⟨others, _, rfl⟩ := Option.map_eq_some_iff.mp done
        have positive := size_pos remains
        obtain ⟨row, rest, selected⟩ := List.exists_cons_of_length_pos (Nat.lt_of_lt_of_le positive full)
        obtain ⟨size, sized⟩ := Nat.exists_eq_succ_of_ne_zero positive.ne'
        rw [List.map_append, names, selected, sized]
        rfl
      · obtain ⟨page, names, last⟩ :=
          listJobs_partial agree room count remains k (Nat.lt_of_not_le full)
        rw [last] at done
        cases done
        rw [names]

/-- The first rows up to the limit. -/
def upTo (left : Option Nat) (rows : List α) : List α :=
  left.elim rows rows.take

theorem upTo_drop {size : Nat} (within : ∀ most ∈ left, size ≤ most) (rows : List α) :
    upTo left rows = rows.take size ++ upTo (left.map (· - size)) (rows.drop size) := by
  cases left with
  | none => exact (List.take_append_drop size rows).symm
  | some most =>
      have split : most = size + (most - size) := (Nat.add_sub_cancel' (within most rfl)).symm
      change rows.take most = rows.take size ++ (rows.drop size).take (most - size)
      rw [← List.take_add, ← split]

theorem upTo_of_length_le {rows : List α} (short : ∀ most ∈ left, rows.length ≤ most) :
    upTo left rows = rows := by
  cases left with
  | none => rfl
  | some most => exact List.take_of_length_le (short most rfl)

theorem upTo_head? (remains : left ≠ some 0) (rows : List α) :
    (upTo left rows).head? = rows.head? := by
  cases left with
  | none => rfl
  | some most =>
      have nonzero : most ≠ 0 := fun zero => remains (by rw [zero])
      exact List.head?_take.trans (if_neg nonzero)

/-- After a page, the listing ends with some rows exactly when what follows ends
with the others. -/
theorem listed_iff_following {listing : Nat → Option (List β)} {other : Nat → Option (List β)}
    {page : List β} {names : List γ} (first : listing 0 = none)
    (next : ∀ requests, listing (requests + 1) = (other requests).map (page ++ ·)) :
    (∃ requests yielded, listing requests = some yielded ∧
        yielded.map name' = page.map name' ++ names) ↔
      ∃ requests yielded, other requests = some yielded ∧ yielded.map name' = names := by
  constructor
  · rintro ⟨requests, yielded, done, all⟩
    cases requests with
    | zero =>
        rw [first] at done
        cases done
    | succ requests =>
        rw [next] at done
        obtain ⟨others, following, rfl⟩ := Option.map_eq_some_iff.mp done
        rw [List.map_append] at all
        exact ⟨requests, others, following, List.append_cancel_left all⟩
  · rintro ⟨requests, others, following, rest⟩
    refine ⟨requests + 1, page ++ others, ?_, by rw [List.map_append, rest]⟩
    rw [next, following, Option.map_some]

/-- Where the rows after a row are listed from its token on, the token is exact. -/
theorem exact_of_listed (agree : keyset.Answers largest name name' embed request)
    (room : pageSize ≤ largest) (distinct : Set.InjOn name {row | row ∈ keyset.rows})
    (count : Left limit totalCount left) (remains : left ≠ some 0) {requests k : Nat}
    {front back : List α} {x : α} (split : keyset.rows = front ++ x :: back) {yielded : List β}
    (done : listJobs request limit requests k totalCount (some (embed (keyset.cursor x))) =
      some yielded)
    (names : yielded.map name' = (upTo left back).map name) : keyset.Exact x := by
  have head := @listJobs_head _ _ _ _ _ largest keyset name name' embed request limit left
    totalCount agree room count remains requests k (some (keyset.cursor x)) yielded done
  have suffix : back <:+ keyset.rows := ⟨front ++ [x], by simp [split]⟩
  rw [names, List.head?_map, List.head?_map, upTo_head? remains] at head
  refine (Keyset.exact_iff_of_split split).mpr (Keyset.remaining_eq_of_head suffix ?_)
  have selected : keyset.remaining (some (keyset.cursor x)) <:+ keyset.rows :=
    keyset.filter_suffix _
  cases first : (keyset.remaining (some (keyset.cursor x))).head? with
  | none =>
      rw [first, Option.map_none, Option.map_eq_none_iff] at head
      exact head.symm
  | some row =>
      rw [first] at head
      obtain ⟨other, begins, same⟩ := Option.map_eq_some_iff.mp head
      have known := selected.subset (List.mem_of_head? first)
      rw [begins, distinct (suffix.subset (List.mem_of_head? begins)) known same]

/-- `list_jobs` yields the first rows up to the limit, and ends, exactly when the
rows that end a page before the limit have exact tokens. -/
theorem listJobs_iff (agree : keyset.Answers largest name name' embed request)
    (room : pageSize ≤ largest) (distinct : Set.InjOn name {row | row ∈ keyset.rows})
    (count : Left limit totalCount left) (k : Nat) {token : Option τ}
    (suffix : keyset.remaining token <:+ keyset.rows) :
    (∃ requests yielded,
      listJobs request limit requests k totalCount (token.map embed) = some yielded ∧
      yielded.map name' = (upTo left (keyset.remaining token)).map name) ↔
    keyset.PagesExact pageSize left (keyset.remaining token) := by
  -- each full page with an exact token leaves fewer rows
  induction remaining : (keyset.remaining token).length using Nat.strong_induction_on
    generalizing k totalCount token left with
  | h length ih =>
      by_cases remains : left = some 0
      · subst remains
        refine iff_of_true ⟨1, [], listJobs_reached (count.reached_iff.mpr rfl), rfl⟩ ?_
        exact fun j x within => absurd (within 0 rfl) (Nat.not_lt_zero _)
      by_cases short : (keyset.remaining token).length < left.elim pageSize (min pageSize)
      · obtain ⟨page, names, last⟩ := listJobs_partial agree room count remains k short
        refine iff_of_true ⟨1, page, last 0, ?_⟩
          (Keyset.pagesExact_of_short (Nat.lt_of_lt_of_le short (size_le left)))
        rw [names, upTo_of_length_le fun most given => Nat.le_of_lt
          (Nat.lt_of_lt_of_le short (size_within most given))]
      obtain ⟨page, x, total, names, ends, counted, next⟩ :=
        listJobs_full agree room count remains k rfl (Nat.le_of_not_lt short)
      by_cases last : ∃ most ∈ left, most ≤ pageSize
      · -- the limit is reached with this page
        obtain ⟨most, rfl, small⟩ := last
        have size : (some most).elim pageSize (min pageSize) = most := Nat.min_eq_right small
        rw [size] at names counted
        refine iff_of_true ⟨2, page ++ [], ?_, by rw [List.append_nil, names]; rfl⟩ ?_
        · rw [next, listJobs_reached (counted.reached_iff.mpr (by simp)), Option.map_some]
        · intro j x within
          have below := within most rfl
          have : pageSize ≤ (j + 1) * pageSize := Nat.le_mul_of_pos_left _ (Nat.succ_pos j)
          omega
      · have further : ∀ most ∈ left, pageSize < most := fun most given =>
          Nat.lt_of_not_le fun small => last ⟨most, given, small⟩
        have size : left.elim pageSize (min pageSize) = pageSize := by
          cases left with
          | none => rfl
          | some most => exact Nat.min_eq_left (Nat.le_of_lt (further most rfl))
        rw [size] at names ends counted short
        obtain ⟨front, split⟩ := keyset.split_of_suffix (by decide) suffix ends
        rw [Keyset.pagesExact_drop (by decide) further ends,
          upTo_drop (fun most given => Nat.le_of_lt (further most given)), List.map_append, ← names,
          listed_iff_following rfl next]
        by_cases selects : keyset.Exact x
        · have selected := (Keyset.exact_iff_of_split split).mp selects
          have dropped : (keyset.remaining (some (keyset.cursor x))).length < length := by
            have : 0 < pageSize := by decide
            rw [selected, List.length_drop]
            omega
          rw [and_iff_right selects, ← selected]
          have rest : keyset.remaining (some (keyset.cursor x)) <:+ keyset.rows :=
            keyset.filter_suffix _
          exact ih _ dropped counted (k + 1) rest rfl
        · refine iff_of_false ?_ fun both => selects both.1
          rintro ⟨requests, others, done, rest⟩
          refine selects (exact_of_listed agree room distinct counted ?_ split done rest)
          cases left with
          | none => simp
          | some most =>
              have := further most rfl
              simp only [Option.map_some, ne_eq, Option.some.injEq]
              omega

end Listing

section Schedules

variable {largest : Nat} {name : α → γ} {rows rest : List γ}
  (server : PageServer largest name rows τ) {limit totalCount : Nat}

/-- What is left within the limit is yielded whole. -/
theorem listSchedules_within (word : limit ≤ u32Max) {size : Nat} (positive : 0 < size)
    (allowed : size ≤ largest)
    (requested : min 25 limit = size) (k : Nat) {token : Option τ}
    (within : totalCount + rest.length ≤ limit) (remaining : server.remains token rest) :
    ∃ requests yielded,
      listSchedules server.request (some limit) requests k totalCount token = some yielded ∧
      yielded.map name = rest := by
  induction left : rest.length using Nat.strong_induction_on
    generalizing k totalCount token rest with
  | h count ih =>
      by_cases reached : limit ≤ totalCount
      · refine ⟨1, [], listSchedules_reached (limitReached_some.mpr reached), ?_⟩
        exact (List.eq_nil_of_length_eq_zero (by omega)).symm
      · have unreached : ¬limitReached (some limit) totalCount = true :=
          fun reads => reached (limitReached_some.mp reads)
        by_cases full : size ≤ rest.length
        · obtain ⟨page, after, answered, named, length, remains⟩ :=
            server.serves_full k positive allowed remaining full
          have counted := count_of_le word page (by omega : totalCount + page.length ≤ limit)
          have dropped : (rest.drop size).length = rest.length - size := List.length_drop
          obtain ⟨requests, others, done, names⟩ := ih (rest.drop size).length (by omega) (k + 1)
            (by omega : totalCount + page.length + (rest.drop size).length ≤ limit) remains rfl
          refine ⟨requests + 1, page ++ others, ?_, ?_⟩
          · rw [listSchedules_next unreached requested answered, counted, done, Option.map_some]
          · rw [List.map_append, named, names, List.take_append_drop]
        · obtain ⟨page, answered, named⟩ :=
            server.serves_partial k allowed remaining (Nat.lt_of_not_le full)
          exact ⟨1, page, listSchedules_last unreached requested answered, named⟩

/-- A limit at the end of a page is kept. -/
theorem listSchedules_pages (word : limit ≤ u32Max) {size : Nat} (positive : 0 < size)
    (allowed : size ≤ largest)
    (requested : min 25 limit = size) (k pages : Nat) {token : Option τ}
    (whole : limit = totalCount + pages * size) (beyond : pages * size ≤ rest.length)
    (remaining : server.remains token rest) :
    ∃ requests yielded,
      listSchedules server.request (some limit) requests k totalCount token = some yielded ∧
      yielded.map name = rest.take (pages * size) := by
  induction pages generalizing k totalCount token rest with
  | zero =>
      exact ⟨1, [], listSchedules_reached (limitReached_some.mpr (by omega)), by simp⟩
  | succ pages ih =>
      rw [Nat.succ_mul] at whole beyond ⊢
      have unreached : ¬limitReached (some limit) totalCount = true := fun reads => by
        have := limitReached_some.mp reads
        omega
      obtain ⟨page, after, answered, named, length, remains⟩ :=
        server.serves_full k positive allowed remaining (by omega)
      have counted := count_of_le word page (by omega : totalCount + page.length ≤ limit)
      obtain ⟨requests, others, done, names⟩ := ih (k + 1)
        (by omega : limit = totalCount + page.length + pages * size)
        (by rw [List.length_drop]; omega : pages * size ≤ (rest.drop size).length) remains
      refine ⟨requests + 1, page ++ others, ?_, ?_⟩
      · rw [listSchedules_next unreached requested answered, counted, done, Option.map_some]
      · rw [List.map_append, named, names, Nat.add_comm (pages * size) size, List.take_add]

/-- A limit inside a page is exceeded by the rest of the page. -/
theorem listSchedules_exceeds (word : limit ≤ u32Max) {size : Nat} (positive : 0 < size)
    (allowed : size ≤ largest)
    (requested : min 25 limit = size) (requests k : Nat) {token : Option τ}
    (below : totalCount ≤ limit) (inside : ¬size ∣ limit - totalCount)
    (beyond : limit < totalCount + rest.length) (remaining : server.remains token rest)
    {yielded : List α}
    (done : listSchedules server.request (some limit) requests k totalCount token = some yielded) :
    limit < totalCount + yielded.length := by
  induction requests generalizing k totalCount token rest yielded with
  | zero => cases done
  | succ requests ih =>
      have unreached : ¬limitReached (some limit) totalCount = true := fun reads => by
        have reached := limitReached_some.mp reads
        rw [Nat.sub_eq_zero_of_le reached] at inside
        exact inside (Nat.dvd_zero size)
      by_cases full : size ≤ rest.length
      · obtain ⟨page, after, answered, named, length, remains⟩ :=
          server.serves_full k positive allowed remaining full
        rw [listSchedules_next unreached requested answered] at done
        obtain ⟨others, following, rfl⟩ := Option.map_eq_some_iff.mp done
        rw [List.length_append]
        by_cases reaches : totalCount + size ≤ limit
        · have counted := count_of_le word page (by omega : totalCount + page.length ≤ limit)
          rw [counted] at following
          have later := ih (k + 1) (by omega : totalCount + page.length ≤ limit)
            (fun divides => inside (by
              have split : limit - totalCount = limit - (totalCount + page.length) + size := by omega
              rw [split]
              exact Nat.dvd_add divides (Nat.dvd_refl size)))
            (by rw [List.length_drop]; omega :
              limit < totalCount + page.length + (rest.drop size).length) remains following
          omega
        · omega
      · obtain ⟨page, answered, named⟩ :=
          server.serves_partial k allowed remaining (Nat.lt_of_not_le full)
        rw [listSchedules_last unreached requested answered] at done
        cases done
        have length : yielded.length = rest.length := by rw [← named, List.length_map]
        omega

theorem listSchedules_none (allowed : 25 ≤ largest) (k : Nat) {token : Option τ}
    (remaining : server.remains token rest) :
    ∃ requests yielded,
      listSchedules server.request none requests k totalCount token = some yielded ∧
      yielded.map name = rest := by
  induction left : rest.length using Nat.strong_induction_on
    generalizing k totalCount token rest with
  | h count ih =>
      have unreached : ¬limitReached none totalCount = true := by simp [limitReached]
      have positive : 0 < 25 := by decide
      by_cases full : 25 ≤ rest.length
      · obtain ⟨page, after, answered, named, length, remains⟩ :=
          server.serves_full k positive allowed remaining full
        have shorter : (rest.drop 25).length < count := by
          rw [List.length_drop]
          omega
        obtain ⟨requests, others, done, names⟩ := @ih _ shorter _
          (page.foldl (fun totalCount _ => countOne totalCount) totalCount) (k + 1) _ remains rfl
        refine ⟨requests + 1, page ++ others, ?_, ?_⟩
        · rw [listSchedules_next unreached rfl answered, done, Option.map_some]
        · rw [List.map_append, named, names, List.take_append_drop]
      · obtain ⟨page, answered, named⟩ := server.serves_partial k allowed remaining (Nat.lt_of_not_le full)
        exact ⟨1, page, listSchedules_last unreached rfl answered, named⟩

end Schedules

end Ora.Client
