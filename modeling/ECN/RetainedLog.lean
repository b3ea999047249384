import Mathlib.Data.List.DropRight
import Mathlib.Data.List.Range
import Mathlib.Tactic

/-!
# Numbered logs with a bounded tail

The items of a log are numbered from zero by their position, and a buffer of `cap`
entries keeps the newest ones. A reader holds the number of the next item it wants. It
reads in order and misses an item only when the buffer has dropped it.
-/
namespace ECN
namespace RetainedLog

variable {α : Type*}

/-! ## Numbering -/

/-- Every item with its position. -/
def numbered (items : List α) : List (ℕ × α) := items.mapIdx Prod.mk

@[simp] theorem length_numbered (items : List α) : (numbered items).length = items.length :=
  List.length_mapIdx

theorem numbered_concat (items : List α) (x : α) :
    numbered (items ++ [x]) = numbered items ++ [(items.length, x)] := List.mapIdx_concat

theorem getElem?_numbered (items : List α) (n : ℕ) :
    (numbered items)[n]? = items[n]?.map fun x => (n, x) := List.getElem?_mapIdx

/-- An entry stands at its own number. -/
theorem mem_numbered {items : List α} {e : ℕ × α} : e ∈ numbered items ↔ items[e.1]? = some e.2 := by
  constructor
  · intro he
    obtain ⟨n, hn⟩ := List.mem_iff_getElem?.mp he
    rw [getElem?_numbered, Option.map_eq_some_iff] at hn
    obtain ⟨x, hx, rfl⟩ := hn
    exact hx
  · intro he
    apply List.mem_iff_getElem?.mpr
    exact ⟨e.1, by rw [getElem?_numbered, he]; rfl⟩

theorem map_fst_numbered (items : List α) :
    (numbered items).map Prod.fst = List.range' 0 items.length := by
  apply List.ext_getElem?
  intro n
  rw [List.getElem?_map, getElem?_numbered, Option.map_map]
  rcases lt_or_ge n items.length with h | h
  · have hrange : (List.range' 0 items.length)[n]? = some n := by
      rw [List.getElem?_range' h]
      simp
    rw [hrange, List.getElem?_eq_getElem h]
    rfl
  · have hrange : (List.range' 0 items.length)[n]? = none :=
      List.getElem?_eq_none (by simpa using h)
    rw [hrange, List.getElem?_eq_none h]
    rfl

theorem map_snd_numbered (items : List α) : (numbered items).map Prod.snd = items := by
  ext n : 1
  rw [List.getElem?_map, getElem?_numbered, Option.map_map]
  exact Option.map_id'

/-! ## Bounded buffers -/

/-- Append to a buffer of `cap` entries, dropping the oldest ones. -/
def push {β : Type*} (cap : ℕ) (buffer : List β) (e : β) : List β :=
  (buffer ++ [e]).drop (buffer.length + 1 - cap)

/-- The newest `cap` entries. -/
def retained (cap : ℕ) (items : List α) : List (ℕ × α) :=
  (numbered items).drop (items.length - cap)

@[simp] theorem retained_nil (cap : ℕ) : retained cap ([] : List α) = [] := by
  simp [retained, numbered]

theorem length_retained (cap : ℕ) (items : List α) :
    (retained cap items).length = min items.length cap := by
  rw [retained, List.length_drop, length_numbered]
  omega

/-- The buffer holds the last payloads of the log. -/
theorem map_snd_retained (cap : ℕ) (items : List α) :
    (retained cap items).map Prod.snd = items.rtake (min items.length cap) := by
  have hskip : items.length - cap = items.length - min items.length cap := by omega
  rw [retained, List.map_drop, map_snd_numbered, hskip]
  rfl

/-- They carry the numbers up to the length of the log. -/
theorem map_fst_retained (cap : ℕ) (items : List α) :
    (retained cap items).map Prod.fst =
      List.range' (items.length - min items.length cap) (min items.length cap) := by
  rw [retained, List.map_drop, map_fst_numbered, List.drop_range']
  congr 1 <;> omega

theorem push_retained (cap : ℕ) (items : List α) (x : α) :
    push cap (retained cap items) (items.length, x) = retained cap (items ++ [x]) := by
  have hlen := length_retained cap items
  have hsplit : retained cap items ++ [(items.length, x)] =
      (numbered (items ++ [x])).drop (items.length - cap) := by
    rw [numbered_concat, List.drop_append_of_le_length (by rw [length_numbered]; omega)]
    rfl
  rw [push, hsplit, hlen, List.drop_drop, retained, List.length_append, List.length_singleton]
  congr 1
  omega

/-- What is left of a numbered log from some number on. -/
theorem filter_numbered (items : List α) (offset skip : ℕ) :
    ((numbered items).drop skip).filter (fun e => decide (offset ≤ e.1)) =
      (numbered items).drop (max offset skip) := by
  induction items using List.reverseRecOn generalizing skip with
  | nil => simp [numbered]
  | append_singleton items x ih =>
    have hlen := length_numbered items
    rw [numbered_concat]
    rcases Nat.lt_or_ge items.length skip with h | h
    · rw [List.drop_of_length_le (by simp; omega), List.drop_of_length_le (by simp; omega)]
      rfl
    rw [List.drop_append_of_le_length (by omega), List.filter_append, ih]
    rcases Nat.lt_or_ge items.length offset with ho | ho
    · rw [List.drop_of_length_le (by omega), List.drop_of_length_le (by simp; omega)]
      simp [ho]
    · rw [List.drop_append_of_le_length (by omega)]
      simp [ho]

/-! ## Reading -/

/-- At most `limit` retained entries from `offset` on. -/
def read (cap : ℕ) (items : List α) (offset limit : ℕ) : List (ℕ × α) :=
  ((numbered items).drop (max offset (items.length - cap))).take limit

/-- The number after the last entry read. -/
def following (offset : ℕ) (entries : List (ℕ × α)) : ℕ :=
  (entries.getLast?.map fun e => e.1 + 1).getD offset

theorem map_fst_read (cap : ℕ) (items : List α) (offset limit : ℕ) :
    (read cap items offset limit).map Prod.fst =
      List.range' (max offset (items.length - cap)) (read cap items offset limit).length := by
  have hmap : (read cap items offset limit).map Prod.fst =
      (List.range' (max offset (items.length - cap))
        (items.length - max offset (items.length - cap))).take limit := by
    rw [read, List.map_take, List.map_drop, map_fst_numbered, List.drop_range']
    simp
  have hlen : (read cap items offset limit).length =
      min limit (items.length - max offset (items.length - cap)) := by
    rw [read, List.length_take, List.length_drop, length_numbered]
  rw [hmap, hlen]
  rcases le_total limit (items.length - max offset (items.length - cap)) with h | h
  · rw [List.take_range'_of_length_ge h, min_eq_left h]
  · rw [List.take_range'_of_length_le h, min_eq_right h]

theorem mem_of_mem_read {cap : ℕ} {items : List α} {offset limit : ℕ} {e : ℕ × α}
    (h : e ∈ read cap items offset limit) : items[e.1]? = some e.2 :=
  mem_numbered.mp (List.mem_of_mem_drop (List.mem_of_mem_take h))

/-- The numbers read are those between the offset, or the oldest retained entry, and
the following offset. -/
theorem exists_mem_read_iff {cap : ℕ} {items : List α} {offset limit n : ℕ} :
    (∃ e ∈ read cap items offset limit, e.1 = n) ↔
      offset ≤ n ∧ items.length - cap ≤ n ∧
        n < max offset (items.length - cap) + (read cap items offset limit).length := by
  have h : (∃ e ∈ read cap items offset limit, e.1 = n) ↔
      n ∈ (read cap items offset limit).map Prod.fst := by
    simp
  rw [h, map_fst_read, List.mem_range'_1]
  omega

theorem following_read (cap : ℕ) (items : List α) (offset limit : ℕ) :
    following offset (read cap items offset limit) =
      if read cap items offset limit = [] then offset
      else max offset (items.length - cap) + (read cap items offset limit).length := by
  have hnumbers := map_fst_read cap items offset limit
  generalize read cap items offset limit = entries at hnumbers
  cases entries using List.reverseRecOn with
  | nil => rfl
  | append_singleton entries e =>
    have hlast := congrArg List.getLast? hnumbers
    rw [List.map_append, List.length_append, List.length_singleton, List.range'_concat] at hlast
    simp only [List.map_cons, List.map_nil, List.getLast?_concat, Option.some.injEq] at hlast
    simp [following]
    omega

theorem offset_le_following (cap : ℕ) (items : List α) (offset limit : ℕ) :
    offset ≤ following offset (read cap items offset limit) := by
  rw [following_read]
  split
  · exact le_rfl
  · omega

/-- A read passes over an item only when the buffer has dropped it. -/
theorem mem_read_of_lt_following {cap : ℕ} {items : List α} {offset limit n : ℕ} (ho : offset ≤ n)
    (hn : n < following offset (read cap items offset limit)) :
    (∃ e ∈ read cap items offset limit, e.1 = n) ∨ n + cap < items.length := by
  rw [following_read] at hn
  rw [exists_mem_read_iff]
  split at hn
  · omega
  · omega

/-- A read that returns less than asked for has reached the end of the log. -/
theorem mem_read_of_short {cap : ℕ} {items : List α} {offset limit n : ℕ} (ho : offset ≤ n)
    (hn : n < items.length) (hshort : (read cap items offset limit).length < limit) :
    (∃ e ∈ read cap items offset limit, e.1 = n) ∨ n + cap < items.length := by
  have hlen : (read cap items offset limit).length =
      min limit (items.length - max offset (items.length - cap)) := by
    rw [read, List.length_take, List.length_drop, length_numbered]
  rw [exists_mem_read_iff]
  omega

/-! ## Readers of a growing log -/

/-- One read: where it started, what it asked for, how long the log was, what it got. -/
structure Record (α : Type*) where
  offset : ℕ
  limit : ℕ
  size : ℕ
  entries : List (ℕ × α)

/-- The log grows while one reader reads from where its last read ended. -/
inductive Session (cap start : ℕ) : List α → ℕ → List (Record α) → Prop
  | opened : Session cap start [] start []
  | grows {items position records} (x : α) (h : Session cap start items position records) :
      Session cap start (items ++ [x]) position records
  | reads {items position records} (limit : ℕ) (h : Session cap start items position records) :
      Session cap start items (following position (read cap items position limit))
        (records ++ [⟨position, limit, items.length, read cap items position limit⟩])

def delivered (records : List (Record α)) : List (ℕ × α) := records.flatMap Record.entries

theorem delivered_concat (records : List (Record α)) (r : Record α) :
    delivered (records ++ [r]) = delivered records ++ r.entries := by
  simp [delivered]

/-- An item was read, or was gone when the reader came to it. -/
def Accounted (cap : ℕ) (records : List (Record α)) (n : ℕ) : Prop :=
  (∃ e ∈ delivered records, e.1 = n) ∨ ∃ r ∈ records, r.offset ≤ n ∧ n + cap < r.size

theorem Accounted.concat {cap n : ℕ} {records : List (Record α)} (h : Accounted cap records n)
    (r : Record α) : Accounted cap (records ++ [r]) n := by
  rcases h with ⟨e, he, hn⟩ | ⟨q, hq, hn⟩
  · exact .inl ⟨e, by simp [delivered_concat, he], hn⟩
  · exact .inr ⟨q, by simp [hq], hn⟩

theorem accounted_last {cap n : ℕ} {records : List (Record α)} {r : Record α} (ho : r.offset ≤ n)
    (h : (∃ e ∈ r.entries, e.1 = n) ∨ n + cap < r.size) : Accounted cap (records ++ [r]) n := by
  rcases h with ⟨e, he, hn⟩ | hgone
  · exact .inl ⟨e, by simp [delivered_concat, he], hn⟩
  · exact .inr ⟨r, by simp, ho, hgone⟩

variable {cap start position : ℕ} {items : List α} {records : List (Record α)}

/-- Everything read lies behind the reader, in increasing order. -/
theorem Session.increasing (h : Session cap start items position records) :
    ((delivered records).map Prod.fst).Pairwise (· < ·) ∧
      ∀ e ∈ delivered records, e.1 < position := by
  induction h with
  | opened => simp [delivered]
  | grows x _ ih => exact ih
  | @reads items position records limit _ ih =>
    obtain ⟨hsorted, hbehind⟩ := ih
    have hfollow := offset_le_following cap items position limit
    have hnew : ∀ e ∈ read cap items position limit, position ≤ e.1 ∧
        e.1 < following position (read cap items position limit) := by
      intro e he
      have hbounds := exists_mem_read_iff.mp ⟨e, he, rfl⟩
      rw [following_read, if_neg (List.ne_nil_of_mem he)]
      exact ⟨hbounds.1, hbounds.2.2⟩
    rw [delivered_concat]
    constructor
    · rw [List.map_append, List.pairwise_append]
      refine ⟨hsorted, ?_, ?_⟩
      · rw [map_fst_read]
        exact List.pairwise_lt_range'
      · intro a ha b hb
        obtain ⟨e, he, rfl⟩ := List.mem_map.mp ha
        obtain ⟨e', he', rfl⟩ := List.mem_map.mp hb
        have hlt := hbehind e he
        have hle := (hnew e' he').1
        omega
    · intro e he
      rcases List.mem_append.mp he with he | he
      · have hlt := hbehind e he
        omega
      · exact (hnew e he).2

/-- Everything read is an item of the log under its own number. -/
theorem Session.genuine (h : Session cap start items position records) :
    ∀ e ∈ delivered records, items[e.1]? = some e.2 := by
  induction h with
  | opened => simp [delivered]
  | grows x _ ih =>
    intro e he
    have hitem := ih e he
    have hlt := (List.getElem?_eq_some_iff.mp hitem).1
    rw [List.getElem?_append_left hlt]
    exact hitem
  | reads limit _ ih =>
    intro e he
    rw [delivered_concat] at he
    rcases List.mem_append.mp he with he | he
    · exact ih e he
    · exact mem_of_mem_read he

/-- Everything between the start and the reader is accounted for. -/
theorem Session.covers (h : Session cap start items position records) {n : ℕ} (hs : start ≤ n)
    (hn : n < position) : Accounted cap records n := by
  induction h with
  | opened => omega
  | grows x _ ih => exact ih hn
  | @reads items position records limit _ ih =>
    rcases Nat.lt_or_ge n position with hold | hnew
    · exact (ih hold).concat _
    · exact accounted_last hnew (mem_read_of_lt_following hnew hn)

/-- After a read that returns less than asked for, everything published before it is
accounted for. -/
theorem Session.short (h : Session cap start items position records) {before after : List (Record α)}
    {r : Record α} (hr : records = before ++ r :: after) (hshort : r.entries.length < r.limit)
    {n : ℕ} (hs : start ≤ n) (hn : n < r.size) : Accounted cap (before ++ [r]) n := by
  induction h generalizing after with
  | opened => simp at hr
  | grows x _ ih => exact ih hr
  | @reads items position records limit hsession ih =>
    rcases List.eq_nil_or_concat after with rfl | ⟨after, last, rfl⟩
    · obtain ⟨rfl, rfl⟩ : records = before ∧
          (⟨position, limit, items.length, read cap items position limit⟩ : Record α) = r := by
        simpa using hr
      rcases Nat.lt_or_ge n position with hold | hnew
      · exact (hsession.covers hs hold).concat _
      · exact accounted_last hnew (mem_read_of_short hnew hn hshort)
    · have hconcat : records ++
          [⟨position, limit, items.length, read cap items position limit⟩] =
            before ++ r :: after ++ [last] := by
        rw [hr, List.concat_eq_append, List.append_assoc, List.cons_append]
      exact ih (List.append_inj' hconcat rfl).1

end RetainedLog
end ECN
