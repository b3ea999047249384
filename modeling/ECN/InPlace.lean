import ECN.PyHeap
import ECN.SupplyChain

/-!
# The handlers on objects

The handlers as the program runs them: they copy the state and change the copy in place,
through references into it. Each does what its function on values does, and no object that
was there before is written.
-/
namespace ECN

open ObjectHeap HeapM

/-! ## Programs that track a function -/

/-- No object is written or lost. -/
structure Keeps (old new : PyHeap) : Prop where
  grows : old.length ≤ new.length
  same : ∀ a < old.length, new[a]? = old[a]?

theorem Keeps.refl (heap : PyHeap) : Keeps heap heap := ⟨le_rfl, fun _ _ => rfl⟩

theorem Keeps.trans {old mid new : PyHeap} (h : Keeps old mid) (h' : Keeps mid new) :
    Keeps old new :=
  ⟨h.grows.trans h'.grows, fun a ha => (h'.same a (ha.trans_le h.grows)).trans (h.same a ha)⟩

/-- Rewriting new objects keeps the old ones. -/
theorem Keeps.rewrites {old heap heap' : PyHeap} (h : Keeps old heap) {F : List ℕ}
    (hF : ∀ b ∈ F, old.length ≤ b) (hw : Rewrites F heap heap') : Keeps old heap' := by
  refine ⟨hw.length ▸ h.grows, fun a ha => ?_⟩
  rw [hw.outside a fun hmem => absurd (hF a hmem) (by omega), h.same a ha]

/-- The run raises what the function raises, or ends as described with what it returns; the
old objects are kept in both cases. -/
def Tracks {α β : Type} (old : PyHeap) (p : Except Exc β) (r : Except Fault α × PyHeap)
    (post : β → α → PyHeap → Prop) : Prop :=
  Keeps old r.2 ∧
    match p with
    | .ok b => ∃ a, r.1 = .ok a ∧ post b a r.2
    | .error e => r.1 = .error (.raised e)

namespace Tracks

variable {α β γ δ : Type} {old heap : PyHeap} {p : Except Exc β} {post : β → α → PyHeap → Prop}
  {post' : δ → γ → PyHeap → Prop}

theorem of_ok {r : Except Fault α × PyHeap} {heap' : PyHeap} {a : α} {b : β} (hp : p = .ok b)
    (hr : r = (.ok a, heap')) (hk : Keeps old heap') (hpost : post b a heap') :
    Tracks old p r post := by
  subst hp hr
  exact ⟨hk, a, rfl, hpost⟩

theorem of_error {r : Except Fault α × PyHeap} {heap' : PyHeap} {e : Exc} (hp : p = .error e)
    (hr : r = (.error (.raised e), heap')) (hk : Keeps old heap') : Tracks old p r post := by
  subst hp hr
  exact ⟨hk, rfl⟩

/-- What a later heap keeps, an earlier one keeps. -/
theorem rebase {mid : PyHeap} {r : Except Fault α × PyHeap} (h : Tracks mid p r post)
    (hk : Keeps old mid) : Tracks old p r post := ⟨hk.trans h.1, h.2⟩

theorem bind {m : HeapM α} {f : α → HeapM γ} {q : β → Except Exc δ}
    (hm : Tracks old p (m heap) post)
    (hf : ∀ b a heap', p = .ok b → Keeps old heap' → post b a heap' →
      Tracks old (q b) (f a heap') post') :
    Tracks old (p >>= q) ((m >>= f) heap) post' := by
  obtain ⟨hk, hm⟩ := hm
  obtain ⟨res, heap', hrun⟩ : ∃ res heap', m heap = (res, heap') := ⟨_, _, rfl⟩
  rw [hrun] at hk hm
  cases p with
  | ok b =>
    obtain ⟨a, rfl, hpost⟩ := hm
    rw [bind_of_ok hrun]
    exact hf b a heap' rfl hk hpost
  | error e =>
    have hres : res = .error (.raised e) := hm
    subst hres
    rw [bind_of_error hrun]
    exact ⟨hk, rfl⟩

/-- A step that both take. -/
theorem lift {f : β → HeapM γ} {q : β → Except Exc δ} (hk : Keeps old heap)
    (hf : ∀ b, p = .ok b → Tracks old (q b) (f b heap) post') :
    Tracks old (p >>= q) ((HeapM.lift p >>= f) heap) post' := by
  cases p with
  | ok b => exact hf b rfl
  | error e => exact ⟨hk, rfl⟩

/-- A step of the program alone. -/
theorem step {m : HeapM α} {f : α → HeapM γ} {heap' : PyHeap} {a : α}
    {q : Except Exc δ} (hrun : m heap = (.ok a, heap'))
    (hf : Tracks old q (f a heap') post') : Tracks old q ((m >>= f) heap) post' := by
  rw [bind_of_ok hrun]
  exact hf

/-- A read of an object. -/
theorem readItem {n : ℕ} {x : PyHandle} {v : Value} {F : List ℕ} {k : Value}
    {f : PyHandle → HeapM γ} {q : Value → Except Exc δ} (hk : Keeps old heap)
    (h : Stands n heap x v F)
    (hf : ∀ w m y G, v.item k = .ok w → n = m + 1 → Stands m heap y w G →
      Tracks old (q w) (f y heap) post') :
    Tracks old (v.item k >>= q) ((getItem x k >>= f) heap) post' := by
  cases hitem : v.item k with
  | error e => exact of_error rfl (bind_of_error (getItem_error h hitem) f) hk
  | ok w =>
    obtain ⟨m, y, G, hm, hrun, hy, -⟩ := getItem_ok h hitem
    exact step hrun (hf w m y G hitem hm hy)

/-- A key of a dictionary. -/
theorem readKey {n : ℕ} {x : PyHandle} {es : PyDict} {F : List ℕ} {k : String}
    {f : PyHandle → HeapM γ} {q : Value → Except Exc δ} (hk : Keeps old heap)
    (h : Stands n heap x (.dict es) F)
    (hf : ∀ w m y G, PyDict.item es (.str k) = .ok w → n = m + 1 → Stands m heap y w G →
      Tracks old (q w) (f y heap) post') :
    Tracks old (PyDict.item es (.str k) >>= q) ((getItem x (.str k) >>= f) heap) post' :=
  readItem hk h hf

/-- A field is read and loaded. -/
theorem loadItem {n limit : ℕ} {x : PyHandle} {v : Value} {F : List ℕ} {k : Value}
    {f : Value → HeapM γ} {q : Value → Except Exc δ} (hk : Keeps old heap)
    (h : Stands n heap x v F) (hn : n ≤ limit)
    (hf : ∀ w, v.item k = .ok w → Tracks old (q w) (f w heap) post') :
    Tracks old (v.item k >>= q) ((getItem x k >>= fun y => load limit y >>= f) heap) post' := by
  refine readItem hk h fun w m y G hitem hm hy => ?_
  exact step (load_of_stands hy (by omega)) (hf w hitem)

/-- A field of a transaction, whose fields are scalars. -/
theorem txItem {tx : PyHandle} {T : Transaction} {G : List ℕ} {k : String}
    {f : PyHandle → HeapM γ} {q : Value → Except Exc δ} (hk : Keeps old heap)
    (h : Stands 1 heap tx (.dict T) G)
    (hf : ∀ s, Tracks old (q (.scalar s)) (f (.leaf s) heap) post') :
    Tracks old (PyDict.item T (.str k) >>= q) ((getItem tx (.str k) >>= f) heap) post' := by
  show Tracks old ((Value.dict T).item (.str k) >>= q) _ post'
  refine readItem hk h fun w m y G hitem hm hy => ?_
  obtain rfl : m = 0 := by omega
  rcases hy.cases with ⟨s, rfl, rfl, -⟩ | ⟨_, _, _, _, _, hn, -⟩ | ⟨_, _, _, _, _, _, hn, -⟩
  · exact hf s
  · omega
  · omega

theorem txLoad {limit : ℕ} {tx : PyHandle} {T : Transaction} {G : List ℕ} {k : String}
    {f : Value → HeapM γ} {q : Value → Except Exc δ} (hk : Keeps old heap)
    (h : Stands 1 heap tx (.dict T) G)
    (hf : ∀ s, Tracks old (q (.scalar s)) (f (.scalar s) heap) post') :
    Tracks old (PyDict.item T (.str k) >>= q)
      ((getItem tx (.str k) >>= fun x => load limit x >>= f) heap) post' :=
  txItem hk h fun s => step (load_of_stands (Owns.of_leaf 0 heap s) (Nat.zero_le limit)) (hf s)

/-- Another step that does the same here. -/
theorem swap {m m' : HeapM α} {f : α → HeapM γ} {q : Except Exc δ} (hm : m heap = m' heap)
    (h : Tracks old q ((m' >>= f) heap) post') : Tracks old q ((m >>= f) heap) post' := by
  have hbind : (m >>= f) heap = (m' >>= f) heap := by
    obtain ⟨result, heap', hresult⟩ : ∃ result heap', m' heap = (result, heap') := ⟨_, _, rfl⟩
    rw [hresult] at hm
    cases result with
    | ok a => rw [HeapM.bind_of_ok hm, HeapM.bind_of_ok hresult]
    | error fault => rw [HeapM.bind_of_error hm, HeapM.bind_of_error hresult]
  rwa [hbind]

/-- The function and the program end with their last step. -/
theorem of_bind_pure {m : HeapM α} (h : Tracks old (p >>= pure) ((m >>= pure) heap) post) :
    Tracks old p (m heap) post := by
  have hm : (m >>= pure) heap = m heap := by
    obtain ⟨result, heap', hresult⟩ : ∃ result heap', m heap = (result, heap') := ⟨_, _, rfl⟩
    cases result with
    | ok a =>
      rw [HeapM.bind_of_ok hresult, hresult]
      rfl
    | error fault => rw [HeapM.bind_of_error hresult, hresult]
  rwa [bind_pure, hm] at h

end Tracks

theorem Stands.pos_of_dict {n : ℕ} {heap : PyHeap} {x : PyHandle} {F : List ℕ} {es : PyDict}
    (h : Stands n heap x (.dict es) F) : 1 ≤ n := by
  rcases h.cases with ⟨_, -, hv, -⟩ | ⟨_, _, _, _, _, hn, -⟩ | ⟨_, _, _, _, _, _, hn, -⟩
  · cases hv
  · omega
  · omega

/-- `x.get(k, s)` stands for what it gives on values. -/
theorem getOr_ok {n : ℕ} {heap : PyHeap} {x : PyHandle} {v : Value} {F : List ℕ}
    (h : Stands n heap x v F) {k w : Value} {s : Scalar} (hw : v.getOr k (.scalar s) = .ok w) :
    ∃ m y f, m + 1 ≤ n ∧ getOr x k (.leaf s) heap = (.ok y, heap) ∧ Stands m heap y w f := by
  cases v with
  | scalar s => cases hw
  | list vs => cases hw
  | dict es =>
    obtain ⟨key, hkey, hw⟩ := bind_eq_ok.mp hw
    have hor := getOr_dict h hkey (.leaf s)
    cases hget : PyDict.get? es key with
    | none =>
      rw [hget] at hor hw
      cases hw
      exact ⟨0, .leaf s, [], h.pos_of_dict, hor, Owns.of_leaf 0 heap s⟩
    | some u =>
      rw [hget] at hor hw
      cases hw
      have hitem : (Value.dict es).item k = .ok u := by
        rw [Value.item, hkey]
        exact PyDict.item_eq_ok.mpr hget
      obtain ⟨m, y, f, hn, hrun, hy, -⟩ := getItem_ok h hitem
      exact ⟨m, y, f, hn.ge, hor.trans hrun, hy⟩

/-! ## A part of the copy -/

/-- The copy is `root`, made of new objects. Its part `x` stands for `v`, and `root` stands
for what `plug` makes of the part. -/
structure Part (old : PyHeap) (limit : ℕ) (heap : PyHeap) (root : PyHandle) (m : ℕ)
    (x : PyHandle) (v : Value) (plug : Value → Option Value) (f outer : List ℕ) : Prop where
  keeps : Keeps old heap
  depth : m ≤ limit
  stands : Stands m heap x v f
  apart : f.Disjoint outer
  new : ∀ b ∈ f, old.length ≤ b
  outerNew : ∀ b ∈ outer, old.length ≤ b ∧ b < heap.length
  focus : Focus Value.scalar Kind.build limit heap root m x plug outer

namespace Part

variable {γ δ : Type} {old heap : PyHeap} {limit m : ℕ} {root x : PyHandle} {v : Value}
  {plug : Value → Option Value} {f outer : List ℕ} {post : δ → γ → PyHeap → Prop}

theorem whole (hk : Keeps old heap) (h : Stands limit heap root v f)
    (hnew : ∀ b ∈ f, old.length ≤ b) : Part old limit heap root limit root v some f [] :=
  ⟨hk, le_rfl, h, by simp [List.Disjoint], hnew, by simp, Focus.whole limit heap root⟩

/-- The whole copy stands for the value with this part. -/
theorem close (h : Part old limit heap root m x v plug f outer) {w : Value}
    (hw : plug v = some w) :
    ∃ F, Stands limit heap root w F ∧ ∀ b ∈ F, old.length ≤ b := by
  obtain ⟨F, hF, hsub⟩ := h.focus heap v f w (fun _ _ => rfl) h.stands h.apart hw
  exact ⟨F, hF, fun b hb => (hsub b hb).elim (fun hb => (h.outerNew b hb).1) (h.new b)⟩

/-- The part after objects of its own were rewritten. -/
theorem rewritten (h : Part old limit heap root m x v plug f outer) {heap' : PyHeap}
    {v' : Value} {f' : List ℕ} (hw : Rewrites f heap heap') (hx : Stands m heap' x v' f')
    (hsub : ∀ b ∈ f', b ∈ f) : Part old limit heap' root m x v' plug f' outer := by
  refine ⟨h.keeps.rewrites h.new hw, h.depth, hx, ?_, fun b hb => h.new b (hsub b hb), ?_, ?_⟩
  · exact fun b hb hout => h.apart (hsub b hb) hout
  · exact hw.length ▸ h.outerNew
  · exact h.focus.transfer fun b hb => hw.outside b fun hf => h.apart hf hb

/-- The part after a new object was made. -/
theorem grow (h : Part old limit heap root m x v plug f outer) (os : PyHeap) :
    Part old limit (heap ++ os) root m x v plug f outer := by
  have hout : ∀ b ∈ outer, (heap ++ os)[b]? = heap[b]? := fun b hb =>
    List.getElem?_append_left (h.outerNew b hb).2
  refine ⟨h.keeps.trans ⟨by simp, fun a ha => List.getElem?_append_left ha⟩, h.depth,
    h.stands.frame fun b hb => List.getElem?_append_left (h.stands.lt_length b hb), h.apart, h.new,
    fun b hb => ?_, h.focus.transfer hout⟩
  have hb := h.outerNew b hb
  rw [List.length_append]
  omega

/-- `x.setdefault(k, [])` with the new list `d`. -/
theorem setDefault {es : PyDict} (h : Part old limit heap root (m + 2) x (.dict es) plug f outer)
    (k : String) {d : ℕ} (hd : heap[d]? = some ⟨.list, []⟩) (hdf : d ∉ f) (hdout : d ∉ outer)
    (hdnew : old.length ≤ d) : ∃ y f' outer' heap',
      ECN.setDefault x (.str k) (.ref d) heap = (.ok y, heap') ∧
      Part old limit heap' root (m + 1) y ((PyDict.get? es (.str k)).getD (.list []))
        (fun u => plug (.dict (PyDict.set es (.str k) u))) f' outer' := by
  obtain ⟨y, f', outer', heap', hrun, hy, hd', hf, hout, hw, hfocus⟩ :=
    setDefault_focus h.focus h.stands h.apart hd hdf hdout
  have hdepth := h.depth
  have hdlt := lt_length_of_getElem? hd
  refine ⟨y, f', outer', heap', hrun, h.keeps.rewrites h.new hw, by omega, hy, hd', ?_, ?_, hfocus⟩
  · intro b hb
    rcases hf b hb with hb | rfl
    · exact h.new b hb
    · exact hdnew
  · intro b hb
    rw [hw.length]
    rcases hout b hb with hb | hb | rfl
    · exact h.outerNew b hb
    · exact ⟨h.new b hb, h.stands.lt_length b hb⟩
    · exact ⟨hdnew, hdlt⟩

/-- An item of the part. -/
theorem item_ok (h : Part old limit heap root m x v plug f outer) {k w : Value}
    (hitem : v.item k = .ok w) : ∃ m' y f' outer', m = m' + 1 ∧
      getItem x k heap = (.ok y, heap) ∧
      Part old limit heap root m' y w (fun u => (v.setItem k u).toOption.bind plug) f' outer' := by
  obtain ⟨m', y, f', outer', hm, hrun, hy, hd, hf, hout, hfocus⟩ :=
    getItem_focus h.focus h.stands h.apart hitem
  have hdepth := h.depth
  refine ⟨m', y, f', outer', hm, hrun, h.keeps, by omega, hy, hd,
    fun b hb => h.new b (hf b hb), fun b hb => ?_, hfocus⟩
  rcases hout b hb with hb | hb
  · exact h.outerNew b hb
  · exact ⟨h.new b hb, h.stands.lt_length b hb⟩

theorem item (h : Part old limit heap root m x v plug f outer) {k : Value}
    {g : PyHandle → HeapM γ} {q : Value → Except Exc δ}
    (hg : ∀ w m' y f' outer', v.item k = .ok w → m = m' + 1 →
      Part old limit heap root m' y w (fun u => (v.setItem k u).toOption.bind plug) f' outer' →
      Tracks old (q w) (g y heap) post) :
    Tracks old (v.item k >>= q) ((getItem x k >>= g) heap) post := by
  cases hitem : v.item k with
  | error e =>
    exact Tracks.of_error rfl (bind_of_error (getItem_error h.stands hitem) g) h.keeps
  | ok w =>
    obtain ⟨m', y, f', outer', hm, hrun, hpart⟩ := h.item_ok hitem
    exact Tracks.step hrun (hg w m' y f' outer' hitem hm hpart)

/-- `x[k] = s`. -/
theorem setItem (h : Part old limit heap root m x v plug f outer) {k : Value} {s : Scalar}
    {g : Unit → HeapM γ} {q : Value → Except Exc δ}
    (hg : ∀ v' heap' f', Part old limit heap' root m x v' plug f' outer →
      Tracks old (q v') (g () heap') post) :
    Tracks old (v.setItem k (.scalar s) >>= q) ((ECN.setItem x k (.leaf s) >>= g) heap) post := by
  cases hset : v.setItem k (.scalar s) with
  | error e =>
    exact Tracks.of_error rfl (bind_of_error (setItem_error h.stands hset (.leaf s)) g) h.keeps
  | ok v' =>
    obtain ⟨heap', f', hrun, hx, hsub, hw⟩ := setItem_ok h.stands hset
    exact Tracks.step hrun (hg v' heap' f' (h.rewritten hw hx hsub))

/-- `x[k] += d`, where the item is known. -/
theorem increaseHeld (h : Part old limit heap root m x v plug f outer) {k held : Value} {d : ℤ}
    (hitem : v.item k = .ok held) {g : Unit → HeapM γ} {q : Value → Except Exc δ}
    (hg : ∀ v' heap' f', Part old limit heap' root m x v' plug f' outer →
      Tracks old (q v') (g () heap') post) :
    Tracks old (held.addInt d >>= fun more => v.setItem k more >>= q)
      ((increase x k d >>= g) heap) post := by
  cases hmore : held.addInt d with
  | error e =>
    exact Tracks.of_error rfl (bind_of_error (increase_error h.stands hitem hmore) g) h.keeps
  | ok more =>
    obtain ⟨v', hset⟩ := setItem_of_item hitem more
    obtain ⟨heap', f', hrun, hx, hsub, hw⟩ := increase_ok h.stands hitem hmore hset
    show Tracks old (v.setItem k more >>= q) _ post
    rw [hset]
    exact Tracks.step hrun (hg v' heap' f' (h.rewritten hw hx hsub))

/-- `x[k] += d`. -/
theorem increase (h : Part old limit heap root m x v plug f outer) {k : Value} {d : ℤ}
    {g : Unit → HeapM γ} {q : Value → Except Exc δ}
    (hg : ∀ v' heap' f', Part old limit heap' root m x v' plug f' outer →
      Tracks old (q v') (g () heap') post) :
    Tracks old (v.item k >>= fun held => held.addInt d >>= fun more => v.setItem k more >>= q)
      ((ECN.increase x k d >>= g) heap) post := by
  cases hitem : v.item k with
  | error e =>
    have hrun : ECN.increase x k d heap = (.error (.raised e), heap) :=
      bind_of_error (getItem_error h.stands hitem) _
    exact Tracks.of_error rfl (bind_of_error hrun g) h.keeps
  | ok held => exact h.increaseHeld hitem hg

/-- `x.pop(k, None)`. -/
theorem pop (h : Part old limit heap root m x v plug f outer) {k : String}
    {g : Unit → HeapM γ} {q : Value → Except Exc δ}
    (hg : ∀ v' heap' f', Part old limit heap' root m x v' plug f' outer →
      Tracks old (q v') (g () heap') post) :
    Tracks old (popField v k >>= q) ((popItem x (.str k) >>= g) heap) post := by
  cases v with
  | dict es =>
    obtain ⟨heap', f', hrun, hx, hsub, hw⟩ := popItem_ok h.stands (.str k)
    exact Tracks.step hrun (hg _ heap' f' (h.rewritten hw hx hsub))
  | scalar s =>
    exact Tracks.of_error rfl (bind_of_error (popItem_error h.stands (by simp) _) g) h.keeps
  | list vs =>
    exact Tracks.of_error rfl (bind_of_error (popItem_error h.stands (by simp) _) g) h.keeps

end Part

/-! ## The handlers -/

variable (limit : ℕ) (py : Interp)

/-- Transfer `amount` from one account to another. -/
def transferInPlace (state tx : PyHandle) : HeapM PyHandle := do
  let sender ← load limit (← getItem tx (.str "from"))
  let receiver ← load limit (← getItem tx (.str "to"))
  let amount ← lift ((← load limit (← getItem tx (.str "amount"))).toInt py)
  lift (raiseIf (decide (amount ≤ 0))
    (.valueError ("Transfer amount must be positive, got " ++ toString amount)))
  let balances ← getItem state (.str "balances")
  lift (raiseIf (!(← lift ((← load limit balances).contains sender)))
    (.valueError ("Sender '" ++ sender.pyStr py ++ "' not found in state")))
  lift (raiseIf (!(← lift ((← load limit balances).contains receiver)))
    (.valueError ("Receiver '" ++ receiver.pyStr py ++ "' not found in state")))
  let held ← load limit (← getItem balances sender)
  lift (raiseIf (← lift (held.ltInt amount))
    (.valueError ("Insufficient funds: '" ++ sender.pyStr py ++ "' has " ++ held.pyStr py ++
      ", needs " ++ toString amount)))
  let newState ← copyObject limit state
  increase (← getItem newState (.str "balances")) sender (-amount)
  increase (← getItem newState (.str "balances")) receiver amount
  return newState

/-- Create new tokens and credit them to `to`. -/
def mintInPlace (state tx : PyHandle) : HeapM PyHandle := do
  let receiver ← load limit (← getItem tx (.str "to"))
  let amount ← lift ((← load limit (← getItem tx (.str "amount"))).toInt py)
  lift (raiseIf (decide (amount ≤ 0))
    (.valueError ("Mint amount must be positive, got " ++ toString amount)))
  let newState ← copyObject limit state
  let balances ← getItem newState (.str "balances")
  match ← getOr balances receiver (.leaf (.int 0)) with
  | .leaf held => setItem balances receiver (.leaf (← lift (held.addInt amount)))
  | .ref _ => raise .typeError
  return newState

/-- Destroy tokens from `from`'s balance. -/
def burnInPlace (state tx : PyHandle) : HeapM PyHandle := do
  let sender ← load limit (← getItem tx (.str "from"))
  let amount ← lift ((← load limit (← getItem tx (.str "amount"))).toInt py)
  lift (raiseIf (decide (amount ≤ 0))
    (.valueError ("Burn amount must be positive, got " ++ toString amount)))
  let balances ← getItem state (.str "balances")
  lift (raiseIf (!(← lift ((← load limit balances).contains sender)))
    (.valueError ("Account '" ++ sender.pyStr py ++ "' not found in state")))
  let held ← load limit (← getItem balances sender)
  lift (raiseIf (← lift (held.ltInt amount))
    (.valueError ("Insufficient funds to burn: '" ++ sender.pyStr py ++ "' has " ++
      held.pyStr py ++ ", needs " ++ toString amount)))
  let newState ← copyObject limit state
  increase (← getItem newState (.str "balances")) sender (-amount)
  return newState

/-- `_get_product(state, product_id)`. -/
def productInPlace (state : PyHandle) (productId : Value) : HeapM PyHandle := do
  let products ← getOr state (.str "products") (← alloc ⟨.dict [], []⟩)
  lift (raiseIf (!(← lift ((← load limit products).contains productId)))
    (.valueError ("Product '" ++ productId.pyStr py ++ "' not found in state")))
  getItem products productId

/-- Ship a product from its current location to a new destination. -/
def shipInPlace (state tx : PyHandle) : HeapM PyHandle := do
  let productId ← load limit (← getItem tx (.str "product_id"))
  let destination ← getItem tx (.str "destination")
  let shipper ← getItem tx (.str "shipper")
  let newState ← copyObject limit state
  let product ← productInPlace limit py newState productId
  let status ← load limit (← getItem product (.str "status"))
  lift (raiseIf (status.eq (.str "in_transit") || status.eq (.str "quarantined"))
    (.valueError ("Cannot ship product '" ++ productId.pyStr py ++ "': current status is '" ++
      status.pyStr py ++ "'")))
  setItem product (.str "status") (.leaf (.str "in_transit"))
  setItem product (.str "location") destination
  setItem product (.str "owner") shipper
  return newState

/-- Record receipt of a product at a destination. -/
def receiveInPlace (state tx : PyHandle) : HeapM PyHandle := do
  let productId ← load limit (← getItem tx (.str "product_id"))
  let receiver ← getItem tx (.str "receiver")
  let atCustoms := (← load limit (← getOr tx (.str "at_customs") (.leaf (.bool false)))).truthy
  let newState ← copyObject limit state
  let product ← productInPlace limit py newState productId
  let status ← load limit (← getItem product (.str "status"))
  lift (raiseIf (!status.eq (.str "in_transit"))
    (.valueError ("Cannot receive product '" ++ productId.pyStr py ++ "': current status is '" ++
      status.pyStr py ++ "'")))
  setItem product (.str "status") (.leaf (.str (if atCustoms then "at_customs" else "delivered")))
  setItem product (.str "owner") receiver
  return newState

/-- Record a passed inspection. -/
def inspectInPlace (state tx : PyHandle) : HeapM PyHandle := do
  let productId ← load limit (← getItem tx (.str "product_id"))
  let checkName ← getItem tx (.str "check_name")
  let newState ← copyObject limit state
  let product ← productInPlace limit py newState productId
  let checks ← setDefault product (.str "checks") (← alloc ⟨.list, []⟩)
  if !(← lift ((← load limit checks).contains (← load limit checkName))) then
    append checks checkName
    sort limit checks
  return newState

/-- Flag a product as quarantined. -/
def quarantineInPlace (state tx : PyHandle) : HeapM PyHandle := do
  let productId ← load limit (← getItem tx (.str "product_id"))
  let reason ← getItem tx (.str "reason")
  let newState ← copyObject limit state
  let product ← productInPlace limit py newState productId
  let status ← load limit (← getItem product (.str "status"))
  lift (raiseIf (status.eq (.str "quarantined"))
    (.valueError ("Product '" ++ productId.pyStr py ++ "' is already quarantined")))
  setItem product (.str "status") (.leaf (.str "quarantined"))
  setItem product (.str "quarantine_reason") reason
  return newState

/-- Release a quarantined product. -/
def releaseInPlace (state tx : PyHandle) : HeapM PyHandle := do
  let productId ← load limit (← getItem tx (.str "product_id"))
  let newState ← copyObject limit state
  let product ← productInPlace limit py newState productId
  let status ← load limit (← getItem product (.str "status"))
  lift (raiseIf (!status.eq (.str "quarantined"))
    (.valueError ("Product '" ++ productId.pyStr py ++ "' is not quarantined")))
  setItem product (.str "status") (.leaf (.str "at_customs"))
  popItem product (.str "quarantine_reason")
  return newState

/-! ## Each handler tracks its function -/

/-- A new state, in objects of its own. -/
def NewState (limit : ℕ) (old : PyHeap) (new : State) (y : PyHandle) (heap : PyHeap) : Prop :=
  ∃ F, Stands limit heap y (.dict new) F ∧ ∀ b ∈ F, old.length ≤ b

section Track

variable {limit : ℕ} {py : Interp} {old heap : PyHeap} {state tx root : PyHandle}
  {S : State} {T : Transaction} {F G : List ℕ}

/-- The copy of the state, before it is changed. -/
theorem Tracks.copied {γ δ : Type} {g : PyHandle → HeapM γ} {p : Except Exc δ}
    {post : δ → γ → PyHeap → Prop} (hk : Keeps old heap) (hs : Stands limit heap state (.dict S) F)
    (hg : ∀ root heap' F', Keeps old heap' → Stands limit heap' root (.dict S) F' →
      (∀ b ∈ F', old.length ≤ b) → Tracks old p (g root heap') post) :
    Tracks old p ((copyObject limit state >>= g) heap) post := by
  obtain ⟨root, heap', F', hrun, hroot, hgrows, hsame, hnew⟩ := copyObject_ok hs
  have hgrown := hk.grows
  refine Tracks.step hrun (hg root heap' F' (hk.trans ⟨hgrows, hsame⟩) hroot fun b hb => ?_)
  have hb := hnew b hb
  omega

/-- Putting a value in the place of the product. -/
def plugProduct (S : State) (productId u : Value) : Option Value :=
  (putProduct S productId u).toOption.map .dict

theorem plugProduct_eq {products : Value} (hget : PyDict.get? S (.str "products") = some products)
    (productId : Value) : (fun u => (products.setItem productId u).toOption.bind
      fun w => ((Value.dict S).setItem (.str "products") w).toOption.bind some) =
        plugProduct S productId := by
  funext u
  rw [plugProduct, putProduct, PyDict.item_eq_ok.mpr hget]
  cases hset : products.setItem productId u with
  | error e => simp [Except.toOption, bind, Except.bind, hset]
  | ok w => simp [Except.toOption, bind, Except.bind, hset, Value.setItem_dict_str, pure, Except.pure]

/-- The lookup of a product in the copy. -/
theorem productInPlace_tracks (hk : Keeps old heap) (hs : Stands limit heap root (.dict S) F)
    (hnew : ∀ b ∈ F, old.length ≤ b) (productId : Value) :
    Tracks old (getProduct py S productId) (productInPlace limit py root productId heap)
      fun product x heap' => ∃ m f outer, limit = m + 2 ∧
        Part old limit heap' root m x product (plugProduct S productId) f outer := by
  have hk' : Keeps old (heap ++ [⟨.dict [], []⟩]) := by
    have hgrows := hk.grows
    refine hk.trans ⟨by simp, fun a ha => List.getElem?_append_left ha⟩
  have hs' : Stands limit (heap ++ [⟨.dict [], []⟩]) root (.dict S) F :=
    hs.frame fun a ha => List.getElem?_append_left (hs.lt_length a ha)
  have hkey : (Value.str "products").asKey = .ok (.str "products") := rfl
  have halloc : alloc ⟨.dict [], []⟩ heap = (.ok (.ref heap.length), heap ++ [⟨.dict [], []⟩]) :=
    rfl
  refine Tracks.step halloc ?_
  have hor := getOr_dict hs' hkey (.ref heap.length)
  cases hget : PyDict.get? S (.str "products") with
  | none =>
    rw [hget] at hor
    have hempty : Stands 1 (heap ++ [⟨.dict [], []⟩]) (.ref heap.length) (.dict [])
        [heap.length] :=
      Owns.ref_iff.mpr ⟨⟨.dict [], []⟩, [], [], by simp, OwnsAll.nil 0 _, by simp, rfl, rfl⟩
    refine Tracks.step hor ?_
    refine Tracks.step (load_of_stands hempty hs'.pos_of_dict) ?_
    rw [getProduct, hget]
    refine Tracks.lift hk' fun found hfound => Tracks.lift hk' fun _ hnot => ?_
    -- No product is found in the default.
    have hmissing : found = false := by
      simp only [Option.getD_none, Value.contains, bind_eq_ok, pure_eq_ok] at hfound
      obtain ⟨key, -, hfound⟩ := hfound
      simpa [PyDict.get?] using hfound.symm
    rw [hmissing] at hnot
    cases hnot
  | some products =>
    rw [hget] at hor
    have hpure : getProduct py S productId = (Value.dict S).item (.str "products") >>=
        fun products => products.contains productId >>= fun found =>
          raiseIf (!found) (.valueError ("Product '" ++ productId.pyStr py ++
            "' not found in state")) >>= fun _ => products.item productId := by
      have hitem : (Value.dict S).item (.str "products") = .ok products :=
        PyDict.item_eq_ok.mpr hget
      rw [hitem, getProduct, hget]
      rfl
    rw [hpure]
    have hfound : getOr root (.str "products") (.ref heap.length) (heap ++ [⟨.dict [], []⟩]) =
        getItem root (.str "products") (heap ++ [⟨.dict [], []⟩]) := hor
    refine Tracks.swap hfound ?_
    refine (Part.whole hk' hs' hnew).item fun w m y f outer hw hm hpart => ?_
    obtain rfl : products = w := by
      have hitem := PyDict.item_eq_ok.mp hw
      rw [hget] at hitem
      exact Option.some.inj hitem
    refine Tracks.step (load_of_stands hpart.stands hpart.depth) ?_
    refine Tracks.lift hk' fun found _ => Tracks.lift hk' fun _ _ => ?_
    refine Tracks.of_bind_pure (hpart.item fun product m' x g outer' _ hm' hproduct => ?_)
    rw [plugProduct_eq hget] at hproduct
    exact Tracks.of_ok rfl rfl hk' ⟨m', g, outer', by omega, hproduct⟩

/-- Where a product was found, it can be written back. -/
theorem exists_plugProduct {productId product : Value}
    (hproduct : getProduct py S productId = .ok product) (u : Value) :
    ∃ new, putProduct S productId u = .ok new ∧ plugProduct S productId u = some (.dict new) := by
  obtain ⟨products, hget, hitem⟩ := getProduct_item py hproduct
  obtain ⟨products', hset⟩ := setItem_of_item hitem u
  have hput : putProduct S productId u = .ok (PyDict.set S (.str "products") products') := by
    rw [putProduct, PyDict.item_eq_ok.mpr hget]
    simp only [bind, Except.bind, hset, pure, Except.pure]
  refine ⟨_, hput, ?_⟩
  rw [plugProduct, hput]
  rfl

/-- The changed copy is returned. -/
theorem putProduct_tracks {productId product product' : Value} {m : ℕ} {x : PyHandle}
    {f outer : List ℕ} (hproduct : getProduct py S productId = .ok product)
    (h : Part old limit heap root m x product' (plugProduct S productId) f outer) :
    Tracks old (putProduct S productId product') ((pure root : HeapM PyHandle) heap)
      (NewState limit old) := by
  obtain ⟨new, hput, hplug⟩ := exists_plugProduct hproduct product'
  exact Tracks.of_ok hput rfl h.keeps (h.close hplug)

theorem shipInPlace_tracks (hs : Stands limit heap state (.dict S) F)
    (ht : Stands 1 heap tx (.dict T) G) :
    Tracks heap (handleShip py S T) (shipInPlace limit py state tx heap)
      (NewState limit heap) := by
  have hk := Keeps.refl heap
  refine Tracks.txLoad hk ht fun productId => ?_
  refine Tracks.txItem hk ht fun destination => ?_
  refine Tracks.txItem hk ht fun shipper => ?_
  refine Tracks.copied hk hs fun root heap₁ F₁ hk₁ hroot hnew => ?_
  refine (productInPlace_tracks hk₁ hroot hnew (.scalar productId)).bind
    fun product x heap₂ hproduct hk₂ ⟨m, f, outer, hm, hpart⟩ => ?_
  refine Tracks.loadItem hk₂ hpart.stands hpart.depth fun status _ => ?_
  refine Tracks.lift hk₂ fun _ _ => ?_
  refine hpart.setItem fun product₁ heap₃ f₁ hpart₁ => ?_
  refine hpart₁.setItem fun product₂ heap₄ f₂ hpart₂ => ?_
  refine hpart₂.setItem fun product₃ heap₅ f₃ hpart₃ => ?_
  exact putProduct_tracks hproduct hpart₃

theorem receiveInPlace_tracks (hs : Stands limit heap state (.dict S) F)
    (ht : Stands 1 heap tx (.dict T) G) :
    Tracks heap (handleReceive py S T) (receiveInPlace limit py state tx heap)
      (NewState limit heap) := by
  have hk := Keeps.refl heap
  have hcustoms : (Value.dict T).getOr (.str "at_customs") (.scalar (.bool false)) =
      .ok ((PyDict.get? T (.str "at_customs")).getD (.bool false)) := rfl
  refine Tracks.txLoad hk ht fun productId => ?_
  refine Tracks.txItem hk ht fun receiver => ?_
  obtain ⟨n, flag, g, hn, hget, hflag⟩ := getOr_ok ht hcustoms
  refine Tracks.step hget ?_
  refine Tracks.step (load_of_stands hflag (by have := hs.pos_of_dict; omega)) ?_
  refine Tracks.copied hk hs fun root heap₁ F₁ hk₁ hroot hnew => ?_
  refine (productInPlace_tracks hk₁ hroot hnew (.scalar productId)).bind
    fun product x heap₂ hproduct hk₂ ⟨m, f, outer, hm, hpart⟩ => ?_
  refine Tracks.loadItem hk₂ hpart.stands hpart.depth fun status _ => ?_
  refine Tracks.lift hk₂ fun _ _ => ?_
  refine hpart.setItem fun product₁ heap₃ f₁ hpart₁ => ?_
  refine hpart₁.setItem fun product₂ heap₄ f₂ hpart₂ => ?_
  exact putProduct_tracks hproduct hpart₂

theorem quarantineInPlace_tracks (hs : Stands limit heap state (.dict S) F)
    (ht : Stands 1 heap tx (.dict T) G) :
    Tracks heap (handleQuarantine py S T) (quarantineInPlace limit py state tx heap)
      (NewState limit heap) := by
  have hk := Keeps.refl heap
  refine Tracks.txLoad hk ht fun productId => ?_
  refine Tracks.txItem hk ht fun reason => ?_
  refine Tracks.copied hk hs fun root heap₁ F₁ hk₁ hroot hnew => ?_
  refine (productInPlace_tracks hk₁ hroot hnew (.scalar productId)).bind
    fun product x heap₂ hproduct hk₂ ⟨m, f, outer, hm, hpart⟩ => ?_
  refine Tracks.loadItem hk₂ hpart.stands hpart.depth fun status _ => ?_
  refine Tracks.lift hk₂ fun _ _ => ?_
  refine hpart.setItem fun product₁ heap₃ f₁ hpart₁ => ?_
  refine hpart₁.setItem fun product₂ heap₄ f₂ hpart₂ => ?_
  exact putProduct_tracks hproduct hpart₂

theorem releaseInPlace_tracks (hs : Stands limit heap state (.dict S) F)
    (ht : Stands 1 heap tx (.dict T) G) :
    Tracks heap (handleRelease py S T) (releaseInPlace limit py state tx heap)
      (NewState limit heap) := by
  have hk := Keeps.refl heap
  refine Tracks.txLoad hk ht fun productId => ?_
  refine Tracks.copied hk hs fun root heap₁ F₁ hk₁ hroot hnew => ?_
  refine (productInPlace_tracks hk₁ hroot hnew (.scalar productId)).bind
    fun product x heap₂ hproduct hk₂ ⟨m, f, outer, hm, hpart⟩ => ?_
  refine Tracks.loadItem hk₂ hpart.stands hpart.depth fun status _ => ?_
  refine Tracks.lift hk₂ fun _ _ => ?_
  refine hpart.setItem fun product₁ heap₃ f₁ hpart₁ => ?_
  refine hpart₁.pop fun product₂ heap₄ f₂ hpart₂ => ?_
  exact putProduct_tracks hproduct hpart₂

/-- The balances of the copy. -/
theorem balancesOfCopy {balances : Value} (hk : Keeps old heap)
    (hs : Stands limit heap root (.dict S) F) (hnew : ∀ b ∈ F, old.length ≤ b)
    (hget : PyDict.item S (.str "balances") = .ok balances) :
    ∃ m x f outer, getItem root (.str "balances") heap = (.ok x, heap) ∧
      Part old limit heap root m x balances
        (fun u => some (.dict (PyDict.set S (.str "balances") u))) f outer := by
  have hitem : (Value.dict S).item (.str "balances") = .ok balances := hget
  obtain ⟨m, x, f, outer, -, hrun, hpart⟩ := (Part.whole hk hs hnew).item_ok hitem
  exact ⟨m, x, f, outer, hrun, hpart⟩

theorem burnInPlace_tracks (hs : Stands limit heap state (.dict S) F)
    (ht : Stands 1 heap tx (.dict T) G) :
    Tracks heap (handleBurn py S T) (burnInPlace limit py state tx heap)
      (NewState limit heap) := by
  have hk := Keeps.refl heap
  refine Tracks.txLoad hk ht fun sender => ?_
  refine Tracks.txLoad hk ht fun amount => ?_
  refine Tracks.lift hk fun amount _ => ?_
  refine Tracks.lift hk fun _ _ => ?_
  refine Tracks.readKey hk hs fun balances m x g hbalances hm hx => ?_
  refine Tracks.step (load_of_stands hx (by omega)) ?_
  refine Tracks.lift hk fun _ _ => ?_
  refine Tracks.lift hk fun _ _ => ?_
  refine Tracks.loadItem hk hx (by omega) fun held hheld => ?_
  refine Tracks.lift hk fun _ _ => ?_
  refine Tracks.lift hk fun _ _ => ?_
  refine Tracks.copied hk hs fun root heap₁ F₁ hk₁ hroot hnew => ?_
  obtain ⟨m', y, f, outer, hrun, hpart⟩ := balancesOfCopy hk₁ hroot hnew hbalances
  refine Tracks.step hrun ?_
  refine hpart.increaseHeld hheld fun debited heap₂ f₂ hdebited => ?_
  exact Tracks.of_ok rfl rfl hdebited.keeps (hdebited.close rfl)

theorem transferInPlace_tracks (hs : Stands limit heap state (.dict S) F)
    (ht : Stands 1 heap tx (.dict T) G) :
    Tracks heap (handleTransfer py S T) (transferInPlace limit py state tx heap)
      (NewState limit heap) := by
  have hk := Keeps.refl heap
  refine Tracks.txLoad hk ht fun sender => ?_
  refine Tracks.txLoad hk ht fun receiver => ?_
  refine Tracks.txLoad hk ht fun amount => ?_
  refine Tracks.lift hk fun amount _ => ?_
  refine Tracks.lift hk fun _ _ => ?_
  refine Tracks.readKey hk hs fun balances m x g hbalances hm hx => ?_
  refine Tracks.step (load_of_stands hx (by omega)) ?_
  refine Tracks.lift hk fun _ _ => ?_
  refine Tracks.lift hk fun _ _ => ?_
  refine Tracks.step (load_of_stands hx (by omega)) ?_
  refine Tracks.lift hk fun _ _ => ?_
  refine Tracks.lift hk fun _ _ => ?_
  refine Tracks.loadItem hk hx (by omega) fun held hheld => ?_
  refine Tracks.lift hk fun _ _ => ?_
  refine Tracks.lift hk fun _ _ => ?_
  refine Tracks.copied hk hs fun root heap₁ F₁ hk₁ hroot hnew => ?_
  obtain ⟨m₁, y₁, f₁, outer₁, hrun₁, hpart₁⟩ := balancesOfCopy hk₁ hroot hnew hbalances
  refine Tracks.step hrun₁ ?_
  refine hpart₁.increaseHeld hheld fun debited heap₂ f₂ hdebited => ?_
  -- The balances are looked up again, now in the debited copy.
  obtain ⟨F₂, hroot₂, hnew₂⟩ := hdebited.close rfl
  have hbalances₂ : PyDict.item (PyDict.set S (.str "balances") debited) (.str "balances") =
      .ok debited := PyDict.item_eq_ok.mpr (by rw [PyDict.get?_set_str, if_pos rfl])
  obtain ⟨m₂, y₂, f₃, outer₂, hrun₂, hpart₂⟩ :=
    balancesOfCopy hdebited.keeps hroot₂ hnew₂ hbalances₂
  refine Tracks.step hrun₂ ?_
  refine hpart₂.increase fun credited heap₃ f₄ hcredited => ?_
  refine Tracks.of_ok rfl rfl hcredited.keeps (hcredited.close ?_)
  rw [set_set_str]

theorem mintInPlace_tracks (hs : Stands limit heap state (.dict S) F)
    (ht : Stands 1 heap tx (.dict T) G) :
    Tracks heap (handleMint py S T) (mintInPlace limit py state tx heap)
      (NewState limit heap) := by
  have hk := Keeps.refl heap
  refine Tracks.txLoad hk ht fun receiver => ?_
  refine Tracks.txLoad hk ht fun amount => ?_
  refine Tracks.lift hk fun amount _ => ?_
  refine Tracks.lift hk fun _ _ => ?_
  refine Tracks.copied hk hs fun root heap₁ F₁ hk₁ hroot hnew => ?_
  show Tracks heap ((Value.dict S).item (.str "balances") >>= _) _ _
  refine (Part.whole hk₁ hroot hnew).item fun balances m x f outer _ hm hpart => ?_
  cases hor : balances.getOr (.scalar receiver) (.int 0) with
  | error e =>
    exact Tracks.of_error rfl (bind_of_error (getOr_error hpart.stands hor _) _) hk₁
  | ok held =>
    obtain ⟨n, y, g, -, hrun, hy⟩ := getOr_ok hpart.stands hor
    refine Tracks.step hrun ?_
    rcases hy.cases with ⟨s, rfl, rfl, -⟩ | ⟨_, _, _, _, _, -, rfl, -, -, -, rfl, -⟩ |
      ⟨_, _, _, _, _, _, -, rfl, -, -, -, -, rfl, -⟩
    · show Tracks heap ((s.addInt amount >>= fun t => pure (Value.scalar t)) >>= _) _ _
      rw [bind_assoc]
      refine Tracks.lift hk₁ fun t _ => ?_
      refine hpart.setItem fun credited heap₂ f₂ hcredited => ?_
      exact Tracks.of_ok rfl rfl hcredited.keeps (hcredited.close rfl)
    · exact Tracks.of_error rfl rfl hk₁
    · exact Tracks.of_error rfl rfl hk₁

/-- The list of checks, changed in place where the check is new. -/
theorem checkInPlace_tracks {checks : Value} {m : ℕ} {x : PyHandle} {name : Scalar}
    {plug : Value → Option Value} {f outer : List ℕ}
    (h : Part old limit heap root m x checks plug f outer) {γ δ : Type} {g : Unit → HeapM γ}
    {q : Value → Except Exc δ} {post : δ → γ → PyHeap → Prop}
    (hg : ∀ checks' heap' f', Part old limit heap' root m x checks' plug f' outer →
      Tracks old (q checks') (g () heap') post) :
    Tracks old (recordCheck checks (.scalar name) >>= q)
      ((lift (checks.contains (.scalar name)) >>= fun found =>
        if !found then append x (.leaf name) >>= fun _ => sort limit x >>= g else g ()) heap)
      post := by
  cases hfound : checks.contains (.scalar name) with
  | error e =>
    refine Tracks.of_error ?_ rfl h.keeps
    unfold recordCheck
    rw [hfound]
    rfl
  | ok found =>
    refine Tracks.step rfl ?_
    have hrecord : recordCheck checks (.scalar name) = if found then .ok checks else
        match checks with
        | .list vs => pySorted Value.lt (vs ++ [.scalar name]) >>= fun ws => pure (.list ws)
        | .scalar _ | .dict _ => .error .attributeError := by
      unfold recordCheck
      rw [hfound]
      cases found <;> cases checks <;> rfl
    rw [hrecord]
    cases found with
    | true => exact hg checks heap f h
    | false =>
      cases checks with
      | scalar s =>
        exact Tracks.of_error rfl (bind_of_error (append_error h.stands (by simp) _) _) h.keeps
      | dict es =>
        exact Tracks.of_error rfl (bind_of_error (append_error h.stands (by simp) _) _) h.keeps
      | list vs =>
        obtain ⟨heap₁, hrun, hx, hw⟩ := append_ok h.stands name
        have happended := h.rewritten hw hx fun _ hb => hb
        refine Tracks.step hrun ?_
        cases hsorted : pySorted Value.lt (vs ++ [.scalar name]) with
        | error e =>
          have hsort := sort_error happended.stands h.depth hsorted
          refine Tracks.of_error ?_ (bind_of_error hsort g) happended.keeps
          show (pySorted Value.lt (vs ++ [.scalar name]) >>= fun ws => pure (Value.list ws)) >>= q = _
          rw [hsorted]
          rfl
        | ok ws =>
          obtain ⟨heap₂, f₂, hsort, hx₂, hsub, hw₂⟩ := sort_ok happended.stands h.depth hsorted
          refine Tracks.step hsort ?_
          show Tracks old ((pySorted Value.lt (vs ++ [.scalar name]) >>= fun ws =>
            pure (Value.list ws)) >>= q) _ post
          rw [hsorted]
          exact hg (.list ws) heap₂ f₂ (happended.rewritten hw₂ hx₂ hsub)

theorem inspectInPlace_tracks (hlimit : 4 ≤ limit) (hs : Stands limit heap state (.dict S) F)
    (ht : Stands 1 heap tx (.dict T) G) :
    Tracks heap (handleInspect py S T) (inspectInPlace limit py state tx heap)
      (NewState limit heap) := by
  have hk := Keeps.refl heap
  refine Tracks.txLoad hk ht fun productId => ?_
  refine Tracks.txItem hk ht fun checkName => ?_
  refine Tracks.copied hk hs fun root heap₁ F₁ hk₁ hroot hnew => ?_
  refine (productInPlace_tracks hk₁ hroot hnew (.scalar productId)).bind
    fun product x heap₂ hproduct hk₂ ⟨m, f, outer, hm, hpart⟩ => ?_
  have hgrown := hk₂.grows
  have halloc : alloc ⟨.list, []⟩ heap₂ = (.ok (.ref heap₂.length), heap₂ ++ [⟨.list, []⟩]) := rfl
  have hpart' := hpart.grow [⟨.list, []⟩]
  refine Tracks.step halloc ?_
  cases product with
  | scalar s =>
    refine Tracks.of_error rfl (bind_of_error ?_ _) hpart'.keeps
    exact setDefault_error hpart'.stands (by simp) _ _
  | list vs =>
    refine Tracks.of_error rfl (bind_of_error ?_ _) hpart'.keeps
    exact setDefault_error hpart'.stands (by simp) _ _
  | dict es =>
    show Tracks heap (recordCheck ((PyDict.get? es (.str "checks")).getD (.list []))
      (.scalar checkName) >>= _) _ _
    obtain ⟨m, rfl⟩ : ∃ m', m = m' + 2 := ⟨m - 2, by omega⟩
    have hd : (heap₂ ++ [⟨.list, []⟩])[heap₂.length]? = some ⟨.list, []⟩ := by simp
    have hdf : heap₂.length ∉ f := fun hmem =>
      absurd (hpart.stands.lt_length _ hmem) (lt_irrefl _)
    have hdout : heap₂.length ∉ outer := fun hmem =>
      absurd (hpart.outerNew _ hmem).2 (lt_irrefl _)
    obtain ⟨y, f₁, outer₁, heap₃, hrun, hchecks⟩ :=
      hpart'.setDefault "checks" hd hdf hdout hgrown
    refine Tracks.step hrun ?_
    refine Tracks.step (load_of_stands hchecks.stands hchecks.depth) ?_
    refine Tracks.step (load_of_stands (Owns.of_leaf 0 heap₃ checkName) (Nat.zero_le limit)) ?_
    refine checkInPlace_tracks hchecks fun checks' heap₄ f₂ hpart₂ => ?_
    obtain ⟨new, hput, hplug⟩ := exists_plugProduct hproduct
      (.dict (PyDict.set es (.str "checks") checks'))
    exact Tracks.of_ok hput rfl hpart₂.keeps (hpart₂.close hplug)

end Track

/-! ## The tables of handlers -/

abbrev HandlerInPlace := PyHandle → PyHandle → HeapM PyHandle

/-- On a transaction of scalars, the program tracks the function. -/
def HandlerTracks (limit : ℕ) (handler : Handler) (program : HandlerInPlace) : Prop :=
  ∀ {heap : PyHeap} {state tx : PyHandle} {S : State} {T : Transaction} {F G : List ℕ},
    Stands limit heap state (.dict S) F → Stands 1 heap tx (.dict T) G →
    Tracks heap (handler S T) (program state tx heap) (NewState limit heap)

abbrev HandlersInPlace := String → Option HandlerInPlace

/-- The built-in table. -/
def builtinHandlersInPlace : HandlersInPlace
  | "transfer" => some (transferInPlace limit py)
  | "mint" => some (mintInPlace limit py)
  | "burn" => some (burnInPlace limit py)
  | _ => none

/-- Register a custom transaction handler. -/
def registerInPlace (table : HandlersInPlace) (txType : String) (program : HandlerInPlace) :
    HandlersInPlace := fun t => if t = txType then some program else table t

/-- The table after the supply-chain handlers are registered. -/
def registerSupplyChainInPlace (table : HandlersInPlace) : HandlersInPlace :=
  let table := registerInPlace table "ship" (shipInPlace limit py)
  let table := registerInPlace table "receive" (receiveInPlace limit py)
  let table := registerInPlace table "inspect" (inspectInPlace limit py)
  let table := registerInPlace table "quarantine" (quarantineInPlace limit py)
  registerInPlace table "release" (releaseInPlace limit py)

/-- Apply `tx` to `state` and return the resulting new state. -/
def executeInPlace (table : HandlersInPlace) : HandlerInPlace := fun state tx => do
  let txType ← load limit (← getOr tx (.str "type") (.leaf .none))
  let unknown := Exc.valueError ("Unknown transaction type: '" ++ txType.pyStr py ++ "'")
  match txType with
  | .scalar (.str t) =>
    match table t with
    | some program => program state tx
    | none => raise unknown
  | .scalar _ => raise unknown
  | .list _ | .dict _ => raise .typeError

/-- The same types are known, and each program tracks its function. -/
def TableTracks (limit : ℕ) (handlers : Handlers) (table : HandlersInPlace) : Prop :=
  ∀ t, (handlers t = none ∧ table t = none) ∨
    ∃ handler program, handlers t = some handler ∧ table t = some program ∧
      HandlerTracks limit handler program

variable {limit : ℕ} {py : Interp} {handlers : Handlers} {table : HandlersInPlace}

theorem builtinHandlersInPlace_tracks :
    TableTracks limit (builtinHandlers py) (builtinHandlersInPlace limit py) := by
  intro t
  unfold builtinHandlers builtinHandlersInPlace
  split
  · exact .inr ⟨_, _, rfl, rfl, transferInPlace_tracks⟩
  · exact .inr ⟨_, _, rfl, rfl, mintInPlace_tracks⟩
  · exact .inr ⟨_, _, rfl, rfl, burnInPlace_tracks⟩
  · exact .inl ⟨rfl, by simp⟩

theorem TableTracks.register (h : TableTracks limit handlers table) (txType : String)
    {handler : Handler} {program : HandlerInPlace} (hp : HandlerTracks limit handler program) :
    TableTracks limit (registerHandler handlers txType handler)
      (registerInPlace table txType program) := by
  intro t
  unfold registerHandler registerInPlace
  by_cases ht : t = txType
  · rw [if_pos ht, if_pos ht]
    exact .inr ⟨handler, program, rfl, rfl, hp⟩
  · rw [if_neg ht, if_neg ht]
    exact h t

theorem registerSupplyChainInPlace_tracks (hlimit : 4 ≤ limit)
    (h : TableTracks limit handlers table) :
    TableTracks limit (registerSupplyChainHandlers py handlers)
      (registerSupplyChainInPlace limit py table) :=
  ((((h.register "ship" shipInPlace_tracks).register "receive" receiveInPlace_tracks).register
    "inspect" (inspectInPlace_tracks hlimit)).register "quarantine"
      quarantineInPlace_tracks).register "release" releaseInPlace_tracks

variable (py) in
/-- The engine in place tracks the engine. -/
theorem executeInPlace_tracks (h : TableTracks limit handlers table) :
    HandlerTracks limit (execute py handlers) (executeInPlace limit py table) := by
  intro heap state tx S T F G hs ht
  have hk := Keeps.refl heap
  have htype : (Value.dict T).getOr (.str "type") (.scalar .none) =
      .ok ((PyDict.get? T (.str "type")).getD Value.none) := rfl
  obtain ⟨n, x, g, hn, hget, hx⟩ := getOr_ok ht htype
  refine Tracks.step hget ?_
  refine Tracks.step (load_of_stands hx (by have := hs.pos_of_dict; omega)) ?_
  unfold execute
  generalize (PyDict.get? T (.str "type")).getD Value.none = txType
  cases txType with
  | list vs => exact Tracks.of_error rfl rfl hk
  | dict es => exact Tracks.of_error rfl rfl hk
  | scalar s =>
    cases s with
    | str t =>
      rcases h t with ⟨hh, ht'⟩ | ⟨handler, program, hh, ht', hp⟩
      · dsimp only
        rw [hh, ht']
        exact Tracks.of_error rfl rfl hk
      · dsimp only
        rw [hh, ht']
        exact hp hs ht
    | none => exact Tracks.of_error rfl rfl hk
    | bool b => exact Tracks.of_error rfl rfl hk
    | int i => exact Tracks.of_error rfl rfl hk
    | float f => exact Tracks.of_error rfl rfl hk

end ECN
