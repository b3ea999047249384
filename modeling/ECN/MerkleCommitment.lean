import ECN.Commitment
import ECN.MerkleTree
import ECN.Supply

/-!
# The Merkle root as a commitment

The Merkle hash digests a text of name, colon and balance for each account, and then the
concatenated digests of neighbours up to the root. The colon tells the text of an account from
a pair of digests, and digests have one length, so what a digest was made of can be read off
unless two of the messages collide.
-/
namespace ECN

open MerkleTree (Level Joins Separates)

/-! ## What is digested -/

section Tree

variable {crypto : Crypto}

/-- The digest of two digests. -/
def joinDigests (crypto : Crypto) (left right : String) : String :=
  hexDigest crypto (utf8 (left ++ right))

/-- The messages digested from a level up to the root. -/
def levelMessages (crypto : Crypto) : ℕ → List String → List (List UInt8)
  | 0, _ => []
  | fuel + 1, level =>
    if level.length ≤ 1 then []
    else ((MerkleTree.pairs level).map fun p => utf8 (p.1 ++ p.2)) ++
      levelMessages crypto fuel (nextLevel crypto level)

/-- The digests of texts. -/
def digestTexts (crypto : Crypto) (texts : List String) : List String :=
  texts.map fun text => hexDigest crypto (utf8 text)

/-- The messages digested for the tree over the texts. -/
def treeMessages (crypto : Crypto) (texts : List String) : List (List UInt8) :=
  if texts.isEmpty then [[]]
  else texts.map utf8 ++ levelMessages crypto texts.length (digestTexts crypto texts)

/-- No two of the messages collide. -/
def NoCollision (crypto : Crypto) (messages : List (List UInt8)) : Prop :=
  ∀ x ∈ messages, ∀ y ∈ messages, crypto.sha256 x = crypto.sha256 y → x = y

instance (crypto : Crypto) (messages : List (List UInt8)) :
    Decidable (NoCollision crypto messages) :=
  inferInstanceAs (Decidable (∀ x ∈ messages, ∀ y ∈ messages,
    crypto.sha256 x = crypto.sha256 y → x = y))

theorem NoCollision.eq {messages : List (List UInt8)} (h : NoCollision crypto messages)
    {x y : List UInt8} (hx : x ∈ messages) (hy : y ∈ messages)
    (heq : hexDigest crypto x = hexDigest crypto y) : x = y :=
  h x hx y hy (sha256_eq_of_hexDigest heq)

theorem nextLevel_eq_next (level : List String) :
    nextLevel crypto level = MerkleTree.next (joinDigests crypto) level := by
  induction level using nextLevel.induct with
  | case1 => rfl
  | case2 left => rfl
  | case3 left right rest ih =>
    rw [nextLevel, ih]
    rfl

/-- With enough fuel the last level is the root alone. -/
theorem exists_root {leaves level : List String} (fuel : ℕ) (hfuel : level.length ≤ fuel)
    (hne : level ≠ []) (h : Level (joinDigests crypto) leaves level) :
    ∃ root, (buildLevels crypto fuel level).getLastD [] = [root] ∧
      Level (joinDigests crypto) leaves [root] := by
  induction fuel generalizing level with
  | zero => exact absurd (List.eq_nil_of_length_eq_zero (by omega)) hne
  | succ fuel ih =>
    have hpos := List.length_pos_iff.mpr hne
    rw [buildLevels]
    split
    · obtain ⟨root, rfl⟩ := List.length_eq_one_iff.mp (show level.length = 1 by omega)
      exact ⟨root, rfl, h⟩
    · next hlong =>
      rw [nextLevel_eq_next]
      have hlength := MerkleTree.length_next (joinDigests crypto) level
      obtain ⟨root, hroot, hlevel⟩ := ih (by omega)
        (List.ne_nil_of_length_pos (by omega)) (h.up (by omega))
      refine ⟨root, ?_, hlevel⟩
      have hcons : buildLevels crypto fuel (MerkleTree.next (joinDigests crypto) level) ≠ [] := by
        intro hnil
        rw [hnil] at hroot
        cases hroot
      obtain ⟨l, ls, hl⟩ := List.exists_cons_of_ne_nil hcons
      rw [hl] at hroot ⊢
      simpa using hroot

/-- The pairs that the tree joins are among the messages. -/
theorem mem_levelMessages {level : List String} {p : String × String} (fuel : ℕ)
    (hfuel : level.length ≤ fuel) (h : Joins (joinDigests crypto) level p) :
    utf8 (p.1 ++ p.2) ∈ levelMessages crypto fuel level := by
  obtain ⟨upper, hupper, hlong, hp⟩ := h
  induction fuel generalizing level with
  | zero =>
    rcases hupper.eq_or_above with rfl | ⟨hlevel, -⟩ <;> omega
  | succ fuel ih =>
    have hlevel : 1 < level.length := by
      rcases hupper.eq_or_above with rfl | ⟨hlevel, -⟩
      · exact hlong
      · exact hlevel
    rw [levelMessages, if_neg (by omega), List.mem_append]
    rcases hupper.eq_or_above with rfl | ⟨-, habove⟩
    · exact .inl (List.mem_map.mpr ⟨p, hp, rfl⟩)
    · rw [nextLevel_eq_next]
      refine .inr (ih ?_ habove)
      rw [MerkleTree.length_next]
      omega

/-! ## The root determines the texts -/

variable {texts texts' : List String}

theorem mem_treeMessages_of_mem {text : String} (h : text ∈ texts) :
    utf8 text ∈ treeMessages crypto texts := by
  have hne : texts.isEmpty = false := by
    cases texts with
    | nil => cases h
    | cons t ts => rfl
  rw [treeMessages, hne]
  exact List.mem_append_left _ (List.mem_map_of_mem h)

theorem mem_treeMessages_of_joins {p : String × String}
    (h : Joins (joinDigests crypto) (digestTexts crypto texts) p) :
    utf8 (p.1 ++ p.2) ∈ treeMessages crypto texts := by
  have hmem := mem_levelMessages texts.length (by simp [digestTexts]) h
  cases texts with
  | nil => cases hmem
  | cons t ts => exact List.mem_append_right _ hmem

/-- The nodes of the tree are digests. -/
theorem hex_of_level {level : List String}
    (h : Level (joinDigests crypto) (digestTexts crypto texts) level) :
    ∀ s ∈ level, ∃ data, s = hexDigest crypto data := by
  intro s hs
  rcases h.eq_or_joined with rfl | hjoined
  · obtain ⟨text, -, rfl⟩ := List.mem_map.mp hs
    exact ⟨_, rfl⟩
  · obtain ⟨p, -, rfl⟩ := hjoined s hs
    exact ⟨_, rfl⟩

theorem hex_of_joins {p : String × String}
    (h : Joins (joinDigests crypto) (digestTexts crypto texts) p) :
    (∃ data, p.1 = hexDigest crypto data) ∧ ∃ data, p.2 = hexDigest crypto data := by
  obtain ⟨level, hlevel, -, hp⟩ := h
  have hmem := MerkleTree.mem_of_mem_pairs hp
  exact ⟨hex_of_level hlevel _ hmem.1, hex_of_level hlevel _ hmem.2⟩

/-- Two digests in a row are no text with a colon. -/
theorem ne_of_joins {p : String × String}
    (h : Joins (joinDigests crypto) (digestTexts crypto texts) p) {text : String}
    (hcolon : ':' ∈ text.toList) : text ≠ p.1 ++ p.2 := by
  rintro rfl
  obtain ⟨⟨left, hleft⟩, right, hright⟩ := hex_of_joins h
  have hhex : ':' ∉ hexAlphabet := by decide
  rw [String.toList_append, List.mem_append] at hcolon
  rcases hcolon with hc | hc
  · exact ne_hexDigest crypto hc hhex left hleft
  · exact ne_hexDigest crypto hc hhex right hright

/-- Digests have one length, so a pair can be cut out of the message. -/
theorem pair_eq_of_append_eq {left right left' right' : List UInt8} {p q : String × String}
    (hp : p = (hexDigest crypto left, hexDigest crypto right))
    (hq : q = (hexDigest crypto left', hexDigest crypto right'))
    (h : p.1 ++ p.2 = q.1 ++ q.2) : p = q := by
  subst hp hq
  have hlist := congrArg String.toList h
  rw [String.toList_append, String.toList_append] at hlist
  obtain ⟨hl, hr⟩ := List.append_inj hlist (by
    rw [String.length_toList, String.length_toList, hexDigest_length, hexDigest_length])
  exact Prod.ext (String.toList_injective hl) (String.toList_injective hr)

theorem separates_of_noCollision
    (hfree : NoCollision crypto (treeMessages crypto texts ++ treeMessages crypto texts')) :
    Separates (joinDigests crypto) {p | Joins (joinDigests crypto) (digestTexts crypto texts) p ∨
      Joins (joinDigests crypto) (digestTexts crypto texts') p} := by
  have hmessage : ∀ p, Joins (joinDigests crypto) (digestTexts crypto texts) p ∨
      Joins (joinDigests crypto) (digestTexts crypto texts') p →
      utf8 (p.1 ++ p.2) ∈ treeMessages crypto texts ++ treeMessages crypto texts' ∧
        ∃ left right, p = (hexDigest crypto left, hexDigest crypto right) := by
    intro p hp
    rcases hp with hp | hp
    · obtain ⟨⟨left, hleft⟩, right, hright⟩ := hex_of_joins hp
      exact ⟨List.mem_append_left _ (mem_treeMessages_of_joins hp), left, right,
        Prod.ext hleft hright⟩
    · obtain ⟨⟨left, hleft⟩, right, hright⟩ := hex_of_joins hp
      exact ⟨List.mem_append_right _ (mem_treeMessages_of_joins hp), left, right,
        Prod.ext hleft hright⟩
  intro p hp q hq hpq
  obtain ⟨hpm, left, right, hpd⟩ := hmessage p hp
  obtain ⟨hqm, left', right', hqd⟩ := hmessage q hq
  exact pair_eq_of_append_eq hpd hqd (utf8_injective (hfree.eq hpm hqm hpq))

/-- The root is the highest level. -/
theorem level_merkleRoot (crypto : Crypto) (hne : texts ≠ []) :
    Level (joinDigests crypto) (digestTexts crypto texts)
      [merkleRoot crypto (digestTexts crypto texts)] := by
  have hleaves : digestTexts crypto texts ≠ [] := by simpa [digestTexts] using hne
  obtain ⟨root, hroot, hlevel⟩ := exists_root _ le_rfl hleaves .leaves
  have hempty : (digestTexts crypto texts).isEmpty = false := by simpa using hleaves
  have heq : merkleRoot crypto (digestTexts crypto texts) = root := by
    rw [merkleRoot, buildMerkleTree, hempty, if_neg Bool.false_ne_true, hroot]
    rfl
  rw [heq]
  exact hlevel

theorem utf8_ne_nil {s : String} (h : s ≠ "") : utf8 s ≠ [] :=
  fun hnil => h (utf8_injective hnil)

/-- The root of a tree over texts with a colon is the digest of a message that is not empty. -/
theorem merkleRoot_message (crypto : Crypto) (hne : texts ≠ [])
    (hcolon : ∀ text ∈ texts, ':' ∈ text.toList) :
    ∃ message ∈ treeMessages crypto texts, message ≠ [] ∧
      merkleRoot crypto (digestTexts crypto texts) = hexDigest crypto message := by
  rcases (level_merkleRoot crypto hne).eq_or_joined with hleaf | hjoined
  · have hroot : merkleRoot crypto (digestTexts crypto texts) ∈ digestTexts crypto texts :=
      hleaf ▸ List.mem_singleton_self _
    obtain ⟨text, htext, heq⟩ := List.mem_map.mp hroot
    refine ⟨utf8 text, mem_treeMessages_of_mem htext, utf8_ne_nil ?_, heq.symm⟩
    rintro rfl
    cases hcolon _ htext
  · obtain ⟨p, hp, heq⟩ := hjoined _ (List.mem_singleton_self _)
    refine ⟨utf8 (p.1 ++ p.2), mem_treeMessages_of_joins hp, utf8_ne_nil fun hnil => ?_, heq⟩
    obtain ⟨⟨left, hleft⟩, -⟩ := hex_of_joins hp
    have hlength := congrArg String.length hnil
    rw [String.length_append, hleft, hexDigest_length] at hlength
    simp at hlength

/-- A tree over texts with a colon has another root than the empty tree. -/
theorem eq_nil_of_merkleRoot_eq (hcolon : ∀ text ∈ texts, ':' ∈ text.toList)
    (hfree : NoCollision crypto (treeMessages crypto texts ++ treeMessages crypto []))
    (hroot : merkleRoot crypto (digestTexts crypto texts) =
      merkleRoot crypto (digestTexts crypto [])) : texts = [] := by
  by_contra hne
  obtain ⟨message, hmem, hmessage, heq⟩ := merkleRoot_message crypto hne hcolon
  refine hmessage (hfree.eq (List.mem_append_left _ hmem) ?_ (heq.symm.trans hroot))
  simp [treeMessages]

theorem nodup_digestTexts {messages : List (List UInt8)} (hfree : NoCollision crypto messages)
    (hmem : ∀ text ∈ texts, utf8 text ∈ messages) (hnodup : texts.Nodup) :
    (digestTexts crypto texts).Nodup :=
  (List.nodup_map_iff_inj_on hnodup).mpr fun t ht u hu htu =>
    utf8_injective (hfree.eq (hmem t ht) (hmem u hu) htu)

/-- Without collisions the root commits to the texts. -/
theorem texts_eq_of_merkleRoot_eq (hnodup : texts.Nodup) (hnodup' : texts'.Nodup)
    (hcolon : ∀ text ∈ texts, ':' ∈ text.toList) (hcolon' : ∀ text ∈ texts', ':' ∈ text.toList)
    (hfree : NoCollision crypto (treeMessages crypto texts ++ treeMessages crypto texts'))
    (hroot : merkleRoot crypto (digestTexts crypto texts) =
      merkleRoot crypto (digestTexts crypto texts')) : texts = texts' := by
  by_cases hne : texts = []
  · subst hne
    refine (eq_nil_of_merkleRoot_eq hcolon' ?_ hroot.symm).symm
    intro x hx y hy
    rw [List.mem_append, or_comm, ← List.mem_append] at hx hy
    exact hfree x hx y hy
  by_cases hne' : texts' = []
  · subst hne'
    exact eq_nil_of_merkleRoot_eq hcolon hfree hroot
  have hmem : ∀ text ∈ texts,
      utf8 text ∈ treeMessages crypto texts ++ treeMessages crypto texts' :=
    fun text h => List.mem_append_left _ (mem_treeMessages_of_mem h)
  have hmem' : ∀ text ∈ texts',
      utf8 text ∈ treeMessages crypto texts ++ treeMessages crypto texts' :=
    fun text h => List.mem_append_right _ (mem_treeMessages_of_mem h)
  have hcommon := level_merkleRoot crypto hne'
  rw [← hroot] at hcommon
  have hleaves : digestTexts crypto texts = digestTexts crypto texts' := by
    refine MerkleTree.leaves_eq_of_common (level_merkleRoot crypto hne) hcommon
      (by simpa [digestTexts] using hne) (by simpa [digestTexts] using hne')
      (nodup_digestTexts hfree hmem hnodup) (nodup_digestTexts hfree hmem' hnodup')
      (separates_of_noCollision hfree) ?_
    -- The message of a leaf has a colon, that of a pair has none.
    intro s hs p hp heq
    have htext : ∃ text, ':' ∈ text.toList ∧ s = hexDigest crypto (utf8 text) ∧
        utf8 text ∈ treeMessages crypto texts ++ treeMessages crypto texts' := by
      rcases hs with hs | hs
      · obtain ⟨text, ht, rfl⟩ := List.mem_map.mp hs
        exact ⟨text, hcolon text ht, rfl, hmem text ht⟩
      · obtain ⟨text, ht, rfl⟩ := List.mem_map.mp hs
        exact ⟨text, hcolon' text ht, rfl, hmem' text ht⟩
    obtain ⟨text, hc, rfl, ht⟩ := htext
    rcases hp with hp | hp
    · have hpm := List.mem_append_left (treeMessages crypto texts') (mem_treeMessages_of_joins hp)
      exact ne_of_joins hp hc (utf8_injective (hfree.eq ht hpm heq))
    · have hpm := List.mem_append_right (treeMessages crypto texts) (mem_treeMessages_of_joins hp)
      exact ne_of_joins hp hc (utf8_injective (hfree.eq ht hpm heq))
  refine MerkleTree.map_inj_of_injOn (s := {t | utf8 t ∈ treeMessages crypto texts ++
    treeMessages crypto texts'}) ?_ hmem hmem' hleaves
  intro t ht u hu htu
  exact utf8_injective (hfree.eq ht hu htu)

end Tree

/-! ## Balances -/

section Balances

variable {rt : Runtime} {state state' : State}

/-- An account name and an integer balance. -/
def IntItem (e : Scalar × Value) : Prop := ∃ (account : String) (balance : ℤ),
  e = (.str account, .int balance)

/-- Distinct string names with integer balances. -/
structure IntDict (es : PyDict) : Prop where
  nodup : (es.map Prod.fst).Nodup
  items : ∀ e ∈ es, IntItem e

/-- The balances are integers under distinct string names; an absent field is empty. -/
def IntBalances (state : State) : Prop := ∃ es, balancesField state = .dict es ∧ IntDict es

/-- `f"{account}:{balance}"`. -/
def leafText (py : Interp) (e : Scalar × Value) : String :=
  (Value.scalar e.1).pyStr py ++ ":" ++ e.2.pyStr py

/-- `sorted(balances.items())`. -/
def sortedBalances (state : State) : Except Exc PyDict := do
  pySorted (fun a b : Scalar × Value => a.1.lt b.1) (← dictItems (balancesField state))

/-- What `_merkle_hash` digests. -/
def merkleMessages (rt : Runtime) (state : State) : Except Exc (List (List UInt8)) := do
  return treeMessages rt.toCrypto ((← sortedBalances state).map (leafText rt.toInterp))

/-- The digest does not collide on what is digested for the two states. -/
def MerkleCollisionFree (rt : Runtime) (state state' : State) : Prop :=
  ∀ messages messages', merkleMessages rt state = .ok messages →
    merkleMessages rt state' = .ok messages' → NoCollision rt.toCrypto (messages ++ messages')

theorem merkleHash_of_sorted {sorted : PyDict} (h : sortedBalances state = .ok sorted) :
    merkleHash rt state = .ok (merkleRoot rt.toCrypto
      (digestTexts rt.toCrypto (sorted.map (leafText rt.toInterp)))) := by
  obtain ⟨items, hitems, hsorted⟩ := bind_eq_ok.mp h
  simp only [merkleHash, bind_eq_ok, pure_eq_ok]
  refine ⟨items, hitems, sorted, hsorted, ?_⟩
  rw [digestTexts, List.map_map]
  rfl

theorem merkleMessages_of_sorted {sorted : PyDict} (h : sortedBalances state = .ok sorted) :
    merkleMessages rt state =
      .ok (treeMessages rt.toCrypto (sorted.map (leafText rt.toInterp))) := by
  rw [merkleMessages, h]
  rfl

theorem merkleCollisionFree_of_sorted {sorted sorted' : PyDict}
    (h : sortedBalances state = .ok sorted) (h' : sortedBalances state' = .ok sorted')
    (hfree : NoCollision rt.toCrypto
      (treeMessages rt.toCrypto (sorted.map (leafText rt.toInterp)) ++
        treeMessages rt.toCrypto (sorted'.map (leafText rt.toInterp)))) :
    MerkleCollisionFree rt state state' := by
  intro messages messages' hm hm'
  rw [merkleMessages_of_sorted h, Except.ok.injEq] at hm
  rw [merkleMessages_of_sorted h', Except.ok.injEq] at hm'
  rwa [← hm, ← hm']

theorem IntItem.lt {a b : Scalar × Value} (ha : IntItem a) (hb : IntItem b) :
    ∃ less, a.1.lt b.1 = .ok less ∧ (less = true ↔ keyString a.1 < keyString b.1) := by
  obtain ⟨s, m, rfl⟩ := ha
  obtain ⟨t, n, rfl⟩ := hb
  exact ⟨_, rfl, decide_eq_true_iff⟩

theorem IntDict.sorted {es : PyDict} (hes : balancesField state = .dict es) (h : IntDict es) :
    ∃ sorted, sortedBalances state = .ok sorted ∧ sorted.Perm es := by
  obtain ⟨sorted, hsorted⟩ := pySorted_ok (fun a b : Scalar × Value => a.1.lt b.1) IntItem
    (fun a b ha hb => (ha.lt hb).imp fun _ hless => hless.1) h.items
  refine ⟨sorted, ?_, pySorted_perm hsorted⟩
  rw [sortedBalances, hes]
  exact hsorted

/-- The last colon of the text of an account ends its name. -/
theorem leafText_injOn (py : Interp) : Set.InjOn (leafText py) {e | IntItem e} := by
  rintro _ ⟨account, balance, rfl⟩ _ ⟨account', balance', rfl⟩ h
  have hdigits : ∀ (n : ℤ), ∀ c ∈ (toString n).toList.reverse, c ∉ [':'] := by
    intro n c hc hcolon
    rw [List.mem_singleton] at hcolon
    subst hcolon
    rcases mem_toString_int (List.mem_reverse.mp hc) with hc | hc
    · cases hc
    · cases hc
  have hchars := congrArg (fun s : String => s.toList.reverse) h
  simp only [leafText, Value.pyStr, String.toList_append, List.reverse_append,
    List.append_assoc] at hchars
  obtain ⟨hbalance, hname⟩ := append_inj_of_endsAt (hdigits balance) (hdigits balance')
    (endsAt_cons (List.mem_singleton_self _) _) (endsAt_cons (List.mem_singleton_self _) _) hchars
  have hbalances := toString_int_injective (List.reverse_injective hbalance)
  have hnames := String.toList_injective (List.reverse_injective (List.cons.inj hname).2)
  rw [hbalances, hnames]

theorem leafText_colon {e : Scalar × Value} (py : Interp) : ':' ∈ (leafText py e).toList := by
  simp [leafText]

/-- Dictionaries with the same lookups have the same items. -/
theorem IntDict.perm_iff {es fs : PyDict} (hes : IntDict es) (hfs : IntDict fs) :
    es.Perm fs ↔
      ∀ account : String, PyDict.get? es (.str account) = PyDict.get? fs (.str account) := by
  have hmem : ∀ {ds : PyDict}, IntDict ds → ∀ (account : String) (v : Value),
      PyDict.get? ds (.str account) = some v ↔ (.str account, v) ∈ ds :=
    fun hds account v => PyDict.get?_str_eq_some_iff hds.nodup
  constructor
  · intro hperm account
    ext v
    rw [hmem hes, hmem hfs, hperm.mem_iff]
  · intro hget
    refine (List.perm_ext_iff_of_nodup hes.nodup.of_map hfs.nodup.of_map).mpr fun e => ?_
    constructor
    · intro he
      obtain ⟨account, balance, rfl⟩ := hes.items e he
      rwa [← hmem hfs, ← hget, hmem hes]
    · intro he
      obtain ⟨account, balance, rfl⟩ := hfs.items e he
      rwa [← hmem hes, hget, hmem hfs]

theorem balanceOf_of_dict {es : PyDict} (h : balancesField state = .dict es) (account : String) :
    balanceOf state account = PyDict.get? es (.str account) := by
  rw [balanceOf, balanceItems, h]

/-- Equal balances give equal Merkle hashes. -/
theorem merkleHash_congr (hs : IntBalances state) (hs' : IntBalances state')
    (h : ∀ account, balanceOf state account = balanceOf state' account) :
    merkleHash rt state = merkleHash rt state' := by
  obtain ⟨es, hes, hint⟩ := hs
  obtain ⟨fs, hfs, hint'⟩ := hs'
  simp only [balanceOf_of_dict hes, balanceOf_of_dict hfs] at h
  have hkeys : (es.map fun e => keyString e.1).Nodup := by
    have hinj : ∀ k ∈ es.map Prod.fst, ∀ l ∈ es.map Prod.fst,
        keyString k = keyString l → k = l := by
      simp only [List.mem_map]
      rintro _ ⟨e, he, rfl⟩ _ ⟨f, hf, rfl⟩ hkl
      obtain ⟨s, m, rfl⟩ := hint.items e he
      obtain ⟨t, n, rfl⟩ := hint.items f hf
      exact congrArg Scalar.str hkl
    rw [show (fun e : Scalar × Value => keyString e.1) = keyString ∘ Prod.fst from rfl,
      ← List.map_map]
    exact (List.nodup_map_iff_inj_on hint.nodup).mpr hinj
  have hlt : ∀ a b : Scalar × Value, IntItem a → IntItem b →
      ∃ less, a.1.lt b.1 = .ok less ∧ (less = true ↔ keyString a.1 < keyString b.1) :=
    fun a b => IntItem.lt
  have hsorted : sortedBalances state = sortedBalances state' := by
    rw [sortedBalances, sortedBalances, hes, hfs]
    exact pySorted_eq_of_perm hlt hint.items hkeys ((hint.perm_iff hint').mpr h)
  obtain ⟨sorted, hs, -⟩ := hint.sorted hes
  rw [merkleHash_of_sorted hs, merkleHash_of_sorted (hsorted ▸ hs)]

/-- Without collisions equal Merkle hashes come from equal balances. -/
theorem balanceOf_eq_of_merkleHash_eq (hs : IntBalances state) (hs' : IntBalances state')
    (hfree : MerkleCollisionFree rt state state')
    (h : merkleHash rt state = merkleHash rt state') (account : String) :
    balanceOf state account = balanceOf state' account := by
  obtain ⟨es, hes, hint⟩ := hs
  obtain ⟨fs, hfs, hint'⟩ := hs'
  obtain ⟨sorted, hsorted, hperm⟩ := hint.sorted hes
  obtain ⟨sorted', hsorted', hperm'⟩ := hint'.sorted hfs
  have hitems : ∀ e ∈ sorted, IntItem e := fun e he => hint.items e (hperm.mem_iff.mp he)
  have hitems' : ∀ e ∈ sorted', IntItem e := fun e he => hint'.items e (hperm'.mem_iff.mp he)
  have hnodup : (sorted.map (leafText rt.toInterp)).Nodup :=
    (List.nodup_map_iff_inj_on (hperm.nodup_iff.mpr hint.nodup.of_map)).mpr
      fun e he f hf => leafText_injOn rt.toInterp (hitems e he) (hitems f hf)
  have hnodup' : (sorted'.map (leafText rt.toInterp)).Nodup :=
    (List.nodup_map_iff_inj_on (hperm'.nodup_iff.mpr hint'.nodup.of_map)).mpr
      fun e he f hf => leafText_injOn rt.toInterp (hitems' e he) (hitems' f hf)
  rw [merkleHash_of_sorted hsorted, merkleHash_of_sorted hsorted', Except.ok.injEq] at h
  have htexts := texts_eq_of_merkleRoot_eq hnodup hnodup'
    (List.forall_mem_map.mpr fun e _ => leafText_colon rt.toInterp)
    (List.forall_mem_map.mpr fun e _ => leafText_colon rt.toInterp)
    (hfree _ _ (merkleMessages_of_sorted hsorted) (merkleMessages_of_sorted hsorted')) h
  have heq : sorted = sorted' :=
    MerkleTree.map_inj_of_injOn (leafText_injOn rt.toInterp) hitems hitems' htexts
  subst heq
  rw [balanceOf_of_dict hes, balanceOf_of_dict hfs]
  exact (hint.perm_iff hint').mp (hperm.symm.trans hperm') account

/-- The Merkle hash commits to the balances: when the digest does not collide on what is
digested, the hashes of two states agree exactly when every account has the same balance. -/
theorem merkleHash_eq_iff (hs : IntBalances state) (hs' : IntBalances state')
    (hfree : MerkleCollisionFree rt state state') :
    (∃ h, merkleHash rt state = .ok h) ∧ (merkleHash rt state = merkleHash rt state' ↔
      ∀ account, balanceOf state account = balanceOf state' account) := by
  refine ⟨?_, balanceOf_eq_of_merkleHash_eq hs hs' hfree, merkleHash_congr hs hs'⟩
  obtain ⟨es, hes, hint⟩ := hs
  obtain ⟨sorted, hsorted, -⟩ := hint.sorted hes
  exact ⟨_, merkleHash_of_sorted hsorted⟩

/-- Balances from a list of accounts. -/
def accountsState (accounts : List (String × ℤ)) : State :=
  [(.str "balances", .dict (accounts.map fun e => (.str e.1, .int e.2)))]

theorem intBalances_accountsState {accounts : List (String × ℤ)}
    (h : (accounts.map Prod.fst).Nodup) : IntBalances (accountsState accounts) := by
  refine ⟨_, rfl, ?_, ?_⟩
  · have hkeys := h.map (show Function.Injective Scalar.str from fun s t hst => by cases hst; rfl)
    simpa [Function.comp_def] using hkeys
  · simp only [List.mem_map]
    rintro _ ⟨e, -, rfl⟩
    exact ⟨e.1, e.2, rfl⟩

/-- The order of the accounts does not show in the Merkle hash, an account more does. -/
theorem merkleHash_accountsState :
    let rt := referenceRuntime false
    merkleHash rt (accountsState [("A", 1), ("B", 2)]) =
        merkleHash rt (accountsState [("B", 2), ("A", 1)]) ∧
      merkleHash rt (accountsState [("A", 1), ("B", 2)]) ≠
        merkleHash rt (accountsState [("A", 1)]) := by
  intro rt
  have hboth : sortedBalances (accountsState [("A", 1), ("B", 2)]) =
      .ok [(.str "A", .int 1), (.str "B", .int 2)] := by decide
  have hswapped : sortedBalances (accountsState [("B", 2), ("A", 1)]) =
      .ok [(.str "A", .int 1), (.str "B", .int 2)] := by decide
  have hone : sortedBalances (accountsState [("A", 1)]) = .ok [(.str "A", .int 1)] := by decide
  have hfree : MerkleCollisionFree rt (accountsState [("A", 1), ("B", 2)])
      (accountsState [("B", 2), ("A", 1)]) :=
    merkleCollisionFree_of_sorted hboth hswapped (by decide +kernel)
  have hfree' : MerkleCollisionFree rt (accountsState [("A", 1), ("B", 2)])
      (accountsState [("A", 1)]) := merkleCollisionFree_of_sorted hboth hone (by decide +kernel)
  constructor
  · refine (merkleHash_eq_iff (intBalances_accountsState (by decide))
      (intBalances_accountsState (by decide)) hfree).2.mpr fun account => ?_
    by_cases hA : account = "A"
    · subst hA
      decide
    · by_cases hB : "B" = account <;>
        simp [balanceOf, balanceItems, balancesField, accountsState, PyDict.get?, Ne.symm hA, hB]
  · rw [Ne, (merkleHash_eq_iff (intBalances_accountsState (by decide))
      (intBalances_accountsState (by decide)) hfree').2]
    intro h
    exact absurd (h "B") (by decide)

end Balances

end ECN
