import Mathlib.Data.List.Forall2
import Mathlib.Tactic

/-!
# Texts that determine what they encode

An encoding is uniquely decodable in a place when its text, followed by what may stand
there, determines the encoded object and the rest. The property passes from the elements
to sequences: to those that a decoder of single elements reads, and to those with a
separator between the elements and a closing symbol after the last.
-/
namespace ECN

variable {α χ : Type*}

/-- The text is empty or goes on with a stop symbol. -/
def EndsAt (stop : List χ) (t : List χ) : Prop := ∀ c, t.head? = some c → c ∈ stop

/-- In front of a stop symbol, the text of `a` is the text of nothing in `P` that `R` does
not relate to `a`. -/
def Determines (stop : List χ) (enc : α → List χ) (P : α → Prop) (R : α → α → Prop) (a : α) :
    Prop :=
  ∀ b t u, P b → EndsAt stop t → EndsAt stop u → enc a ++ t = enc b ++ u → R a b ∧ t = u

theorem endsAt_nil (stop : List χ) : EndsAt stop [] := by simp [EndsAt]

theorem endsAt_cons {stop : List χ} {c : χ} (hc : c ∈ stop) (t : List χ) :
    EndsAt stop (c :: t) := by
  simpa [EndsAt] using hc

theorem exists_of_mem_left {β : Type*} {R : α → β → Prop} {as : List α} {bs : List β}
    (h : List.Forall₂ R as bs) {a : α} (ha : a ∈ as) : ∃ b ∈ bs, R a b := by
  induction h with
  | nil => cases ha
  | cons hab _ ih =>
    rcases List.mem_cons.mp ha with rfl | ha
    · exact ⟨_, List.mem_cons_self, hab⟩
    · obtain ⟨b, hb, hR⟩ := ih ha
      exact ⟨b, List.mem_cons_of_mem _ hb, hR⟩

theorem map_eq_of_forall₂ {β γ : Type*} {R : α → β → Prop} {f : α → γ} {g : β → γ} {as : List α}
    {bs : List β} (h : List.Forall₂ R as bs)
    (hR : ∀ a ∈ as, ∀ b ∈ bs, R a b → f a = g b) : as.map f = bs.map g := by
  induction h with
  | nil => rfl
  | cons hab _ ih =>
    rw [List.map_cons, List.map_cons, hR _ List.mem_cons_self _ List.mem_cons_self hab,
      ih fun a ha b hb => hR a (List.mem_cons_of_mem _ ha) b (List.mem_cons_of_mem _ hb)]

/-! ## Words -/

/-- Two words without stop symbols end where the first stop symbol stands. -/
theorem append_inj_of_endsAt {stop xs ys t u : List χ} (hxs : ∀ c ∈ xs, c ∉ stop)
    (hys : ∀ c ∈ ys, c ∉ stop) (ht : EndsAt stop t) (hu : EndsAt stop u)
    (h : xs ++ t = ys ++ u) : xs = ys ∧ t = u := by
  induction xs generalizing ys with
  | nil =>
    cases ys with
    | nil => exact ⟨rfl, h⟩
    | cons y ys =>
      have hhead : t.head? = some y := by
        rw [show t = y :: (ys ++ u) from h]
        rfl
      exact absurd (ht y hhead) (hys y List.mem_cons_self)
  | cons x xs ih =>
    cases ys with
    | nil =>
      have hhead : u.head? = some x := by
        rw [show u = x :: (xs ++ t) from h.symm]
        rfl
      exact absurd (hu x hhead) (hxs x List.mem_cons_self)
    | cons y ys =>
      rw [List.cons_append, List.cons_append, List.cons.injEq] at h
      obtain ⟨hrest, htu⟩ := ih (fun c hc => hxs c (List.mem_cons_of_mem x hc))
        (fun c hc => hys c (List.mem_cons_of_mem y hc)) h.2
      exact ⟨by rw [h.1, hrest], htu⟩

/-! ## Sequences with a decoder of single elements -/

/-- A decoder of one element makes sequences up to a symbol that opens no element
uniquely decodable. -/
theorem flatMap_append_inj {enc : α → List χ} {decode : List χ → Option (α × List χ)} {close : χ}
    (hdecode : ∀ a t, decode (enc a ++ t) = some (a, t))
    (hclose : ∀ a t u, enc a ++ t ≠ close :: u) {as bs : List α} {t u : List χ}
    (h : as.flatMap enc ++ close :: t = bs.flatMap enc ++ close :: u) : as = bs ∧ t = u := by
  induction as generalizing bs with
  | nil =>
    cases bs with
    | nil => exact ⟨rfl, (List.cons.inj h).2⟩
    | cons b bs =>
      rw [List.flatMap_cons, List.append_assoc] at h
      exact absurd h.symm (hclose b _ t)
  | cons a as ih =>
    cases bs with
    | nil =>
      rw [List.flatMap_cons, List.append_assoc] at h
      exact absurd h (hclose a _ u)
    | cons b bs =>
      have hread := congrArg decode h
      rw [List.flatMap_cons, List.flatMap_cons, List.append_assoc, List.append_assoc, hdecode,
        hdecode, Option.some.injEq, Prod.mk.injEq] at hread
      obtain ⟨has, htu⟩ := ih hread.2
      exact ⟨by rw [hread.1, has], htu⟩

/-! ## Separated sequences -/

section Separated

variable {stop : List χ} {enc : α → List χ} {P : α → Prop} {R : α → α → Prop} {sep close : χ}

/-- The elements with a separator between them. -/
def joined (sep : χ) (enc : α → List χ) (as : List α) : List χ :=
  List.intercalate [sep] (as.map enc)

@[simp] theorem joined_nil (sep : χ) (enc : α → List χ) : joined sep enc [] = [] := rfl

@[simp] theorem joined_singleton (sep : χ) (enc : α → List χ) (a : α) :
    joined sep enc [a] = enc a := by
  simp [joined]

@[simp] theorem joined_cons_cons (sep : χ) (enc : α → List χ) (a b : α) (as : List α) :
    joined sep enc (a :: b :: as) = enc a ++ sep :: joined sep enc (b :: as) := by
  simp [joined]

/-- What stands behind the first element. -/
theorem exists_tail_joined (sep close : χ) (enc : α → List χ) (a : α) (as : List α) (t : List χ) :
    ∃ tail, joined sep enc (a :: as) ++ close :: t = enc a ++ tail ∧
      (as = [] ∧ tail = close :: t ∨
        as ≠ [] ∧ tail = sep :: (joined sep enc as ++ close :: t)) := by
  cases as with
  | nil => exact ⟨close :: t, by simp, .inl ⟨rfl, rfl⟩⟩
  | cons b as => exact ⟨_, by simp [List.append_assoc], .inr ⟨by simp, rfl⟩⟩

theorem joined_append_inj (hsep : sep ∈ stop) (hclose : close ∈ stop) (hne : sep ≠ close)
    (hopen : ∀ b, P b → ∃ c cs, enc b = c :: cs ∧ c ∉ stop) {as bs : List α} {t u : List χ}
    (has : ∀ a ∈ as, P a ∧ Determines stop enc P R a) (hbs : ∀ b ∈ bs, P b)
    (h : joined sep enc as ++ close :: t = joined sep enc bs ++ close :: u) :
    List.Forall₂ R as bs ∧ t = u := by
  -- The text of an element does not start with the closing symbol.
  have hopened : ∀ b, P b → ∀ s s', enc b ++ s ≠ close :: s' := by
    intro b hb s s' heq
    obtain ⟨c, cs, hc, hnot⟩ := hopen b hb
    rw [hc, List.cons_append, List.cons.injEq] at heq
    exact hnot (heq.1 ▸ hclose)
  induction as generalizing bs with
  | nil =>
    cases bs with
    | nil => exact ⟨.nil, (List.cons.inj h).2⟩
    | cons b bs =>
      obtain ⟨tail, htail, -⟩ := exists_tail_joined sep close enc b bs u
      rw [htail] at h
      exact absurd h.symm (hopened b (hbs b List.mem_cons_self) _ _)
  | cons a as ih =>
    obtain ⟨hPa, ha⟩ := has a List.mem_cons_self
    obtain ⟨tail, htail, hcase⟩ := exists_tail_joined sep close enc a as t
    cases bs with
    | nil =>
      rw [htail] at h
      exact absurd h (hopened a hPa _ _)
    | cons b bs =>
      obtain ⟨tail', htail', hcase'⟩ := exists_tail_joined sep close enc b bs u
      rw [htail, htail'] at h
      have hends : ∀ {as : List α} {s t : List χ}, (as = [] ∧ s = close :: t ∨
          as ≠ [] ∧ s = sep :: (joined sep enc as ++ close :: t)) → EndsAt stop s := by
        rintro as s t (⟨-, rfl⟩ | ⟨-, rfl⟩)
        · exact endsAt_cons hclose _
        · exact endsAt_cons hsep _
      obtain ⟨hab, htails⟩ := ha b tail tail' (hbs b List.mem_cons_self) (hends hcase)
        (hends hcase') h
      have hasRest := fun a' h' => has a' (List.mem_cons_of_mem a h')
      have hbsRest := fun b' h' => hbs b' (List.mem_cons_of_mem b h')
      rcases hcase with ⟨rfl, rfl⟩ | ⟨-, rfl⟩ <;> rcases hcase' with ⟨rfl, rfl⟩ | ⟨-, rfl⟩
      · exact ⟨.cons hab .nil, (List.cons.inj htails).2⟩
      · exact absurd (List.cons.inj htails).1.symm hne
      · exact absurd (List.cons.inj htails).1 hne
      · obtain ⟨hrest, htu⟩ := ih hasRest hbsRest (List.cons.inj htails).2
        exact ⟨.cons hab hrest, htu⟩

end Separated

end ECN
