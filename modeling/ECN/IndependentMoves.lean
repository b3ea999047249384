import ECN.Commuting
import ECN.SupplyRecords

/-!
# Independent supply-chain transactions

Movements of different products commute, and an inspection commutes with every movement of
the same product, since no other movement looks at the checks. Transactions of which no two
that are no inspections name one product therefore have one outcome in every order.
-/
namespace ECN

/-! ## Movements of one product -/

namespace Product

/-- The checks do not depend on the order in which they were passed. -/
theorem withCheck_comm {checks : List String} (h : checks.Pairwise (· < ·)) (c d : String) :
    withCheck (withCheck checks c) d = withCheck (withCheck checks d) c := by
  have hc := pairwise_withCheck (pairwise_withCheck h c) d
  have hd := pairwise_withCheck (pairwise_withCheck h d) c
  have hnodup {checks : List String} (h : checks.Pairwise (· < ·)) : checks.Nodup :=
    h.imp fun hab => ne_of_lt hab
  have hperm : (withCheck (withCheck checks c) d).Perm (withCheck (withCheck checks d) c) := by
    refine (List.perm_ext_iff_of_nodup (hnodup hc) (hnodup hd)).mpr fun e => ?_
    simp only [mem_withCheck]
    tauto
  exact hperm.eq_of_pairwise (fun a b _ _ hab hba => (lt_asymm hab hba).elim) hc hd

theorem commute_inspect (c : String) (mv : Movement) : Commute move (.inspect c) mv := by
  cases mv with
  | inspect d =>
    refine ⟨fun p => ?_, fun p => rfl, fun p => rfl⟩
    simp [attempt, move, withCheck_comm p.sorted c d]
  | ship destination shipper =>
    refine ⟨fun p => ?_, fun p => rfl, fun p => ?_⟩
    · by_cases h : p.status = .inTransit ∨ p.status = .quarantined <;> simp [attempt, move, h]
    · by_cases h : p.status = .inTransit ∨ p.status = .quarantined <;> simp [attempt, move, h]
  | receive receiver atCustoms =>
    refine ⟨fun p => ?_, fun p => rfl, fun p => ?_⟩
    · by_cases h : p.status = .inTransit <;> simp [attempt, move, h]
    · by_cases h : p.status = .inTransit <;> simp [attempt, move, h]
  | quarantine reason =>
    refine ⟨fun p => ?_, fun p => rfl, fun p => ?_⟩
    · by_cases h : p.status = .quarantined <;> simp [attempt, move, h]
    · by_cases h : p.status = .quarantined <;> simp [attempt, move, h]
  | release =>
    refine ⟨fun p => ?_, fun p => rfl, fun p => ?_⟩
    · by_cases h : p.status = .quarantined <;> simp [attempt, move, h]
    · by_cases h : p.status = .quarantined <;> simp [attempt, move, h]

end Product

/-! ## Movements in a chain -/

namespace Chain

variable {productId : String} {mv mv' : Movement} {event event' : String × Movement}

/-- A movement acts on the record of its product only. -/
theorem get?_attempt (chain : Chain) (event : String × Movement) (k : String) :
    (attempt move chain event).get? k =
      if k = event.1 then (chain.get? k).map fun p => attempt Product.move p event.2
      else chain.get? k := by
  by_cases hk : k = event.1
  · subst hk
    rw [if_pos rfl]
    cases hp : chain.get? event.1 with
    | none => simp [attempt, move, hp]
    | some p => cases hq : p.move event.2 <;> simp [attempt, move, hp, hq]
  · rw [if_neg hk]
    cases hp : chain.get? event.1 with
    | none => simp [attempt, move, hp]
    | some p => cases hq : p.move event.2 <;> simp [attempt, move, hp, hq, hk]

theorem keys_attempt (chain : Chain) (event : String × Movement) :
    (attempt move chain event).keys = chain.keys := by
  cases h : chain.move event with
  | none => rw [attempt_of_none h]
  | some chain' =>
    rw [attempt, h, Option.getD_some]
    exact keys_move h

theorem isSome_move (chain : Chain) (event : String × Movement) :
    (chain.move event).isSome =
      ((chain.get? event.1).bind fun p => p.move event.2).isSome := by
  cases hp : chain.get? event.1 <;> simp [move, hp]

theorem commute_of_ne (hne : event.1 ≠ event'.1) : Commute move event event' where
  swap chain := by
    refine OrderedDict.ext_keys ?_ fun k => ?_
    · simp only [keys_attempt]
    · simp only [get?_attempt]
      by_cases hk : k = event.1
      · subst hk
        simp [hne]
      · simp [hk]
  left chain := by simp only [isSome_move, get?_attempt, if_neg hne]
  right chain := by simp only [isSome_move, get?_attempt, if_neg hne.symm]

/-- Movements of one product commute in a chain when they commute. -/
theorem commute_of_product (h : Commute Product.move mv mv') :
    Commute move (productId, mv) (productId, mv') where
  swap chain := by
    refine OrderedDict.ext_keys ?_ fun k => ?_
    · simp only [keys_attempt]
    · simp only [get?_attempt]
      split
      · cases chain.get? k with
        | none => rfl
        | some p => exact congrArg some (h.swap p)
      · rfl
  left chain := by
    simp only [isSome_move, get?_attempt, if_true]
    cases chain.get? productId with
    | none => rfl
    | some p => exact h.left p
  right chain := by
    simp only [isSome_move, get?_attempt, if_true]
    cases chain.get? productId with
    | none => rfl
    | some p => exact h.right p

theorem commute_inspect (c : String) : Commute move (productId, .inspect c) event := by
  by_cases hid : productId = event.1
  · subst hid
    exact commute_of_product (Product.commute_inspect c event.2)
  · exact commute_of_ne hid

end Chain

/-! ## Transactions -/

section Reading

variable {tx tx' : Transaction} {event event' : String × Movement}

theorem readMovement_product (h : readMovement tx = some event) :
    stringField tx "product_id" = some event.1 := by
  simp only [readMovement, Option.bind_eq_bind, Option.bind_eq_some_iff] at h
  obtain ⟨productId, hid, t, -, h⟩ := h
  rw [hid]
  split at h
  case h_5 => rw [← Option.some.inj h]
  case h_6 => cases h
  all_goals
    simp only [Option.bind_eq_some_iff, Option.pure_def, Option.some.injEq] at h
  · obtain ⟨_, -, _, -, rfl⟩ := h
    rfl
  all_goals
    obtain ⟨_, -, rfl⟩ := h
    rfl

theorem readMovement_of_inspect (htype : stringField tx "type" = some "inspect")
    (h : readMovement tx = some event) : ∃ c, event.2 = .inspect c := by
  simp only [readMovement, htype, Option.bind_eq_bind, Option.bind_eq_some_iff, Option.some.injEq,
    exists_eq_left', Option.pure_def] at h
  obtain ⟨productId, -, c, -, rfl⟩ := h
  exact ⟨c, rfl⟩

/-- One of the two is an inspection, or they name different products. -/
def Independent (tx tx' : Transaction) : Prop :=
  stringField tx "type" = some "inspect" ∨ stringField tx' "type" = some "inspect" ∨
    ∀ productId, stringField tx "product_id" = some productId →
      stringField tx' "product_id" ≠ some productId

/-- The movement that a transaction names, if the chain allows it. -/
def Chain.submit (chain : Chain) (tx : Transaction) : Option Chain :=
  (readMovement tx).bind chain.move

theorem Independent.commute (h : Independent tx tx') : Commute Chain.submit tx tx' := by
  have hnone {tx : Transaction} (hread : readMovement tx = none) (chain : Chain) :
      chain.submit tx = none := by
    rw [Chain.submit, hread, Option.bind_none]
  cases hread : readMovement tx with
  | none => exact commute_of_none (hnone hread) tx'
  | some event =>
    cases hread' : readMovement tx' with
    | none => exact (commute_of_none (hnone hread') tx).symm
    | some event' =>
      suffices hevents : Commute Chain.move event event' from hevents.named hread hread'
      rcases h with htype | htype | hproducts
      · obtain ⟨c, hc⟩ := readMovement_of_inspect htype hread
        rw [← Prod.eta event, hc]
        exact Chain.commute_inspect c
      · obtain ⟨c, hc⟩ := readMovement_of_inspect htype hread'
        rw [← Prod.eta event', hc]
        exact (Chain.commute_inspect c).symm
      · refine Chain.commute_of_ne fun hid => hproducts event.1 (readMovement_product hread) ?_
        rw [hid]
        exact readMovement_product hread'

end Reading
/-! ## Movements are accepted -/

section Accepting

variable {py : Interp} {chain chain' : Chain} {tx : Transaction} {productId : String}

theorem item_of_stringField {field s : String} (h : stringField tx field = some s) :
    PyDict.item tx (.str field) = .ok (.str s) := by
  unfold stringField at h
  split at h
  · next s' hget =>
    rw [← Option.some.inj h]
    exact PyDict.item_eq_ok.mpr hget
  · cases h

theorem getProduct_of_get? {p : Product} (h : chain.get? productId = some p) :
    getProduct py chain.toState (.str productId) = .ok (.dict p.fields) := by
  have hget : PyDict.get? (itemsOf (fun p : Product => .dict p.fields) chain) (.str productId) =
      some (.dict p.fields) := by rw [get?_itemsOf, h, Option.map_some]
  have hproducts : PyDict.get? chain.toState (.str "products") =
      some (.dict (itemsOf (fun p : Product => .dict p.fields) chain)) := rfl
  simp [getProduct, hproducts, Value.contains, Value.item, Value.asKey, PyDict.item, hget, raiseIf,
    bind, Except.bind, pure, Except.pure]

theorem putProduct_of_fields {q : Product} {fields : PyDict} (h : fields = q.fields) :
    putProduct chain.toState (.str productId) (.dict fields) =
      .ok (Chain.toState (chain.set productId q)) := by
  rw [h, putProduct_toState]

variable {p q : Product}

theorem handleShip_of_move {destination shipper : String} (hp : chain.get? productId = some p)
    (hq : p.move (.ship destination shipper) = some q)
    (hid : stringField tx "product_id" = some productId)
    (hdest : stringField tx "destination" = some destination)
    (hshipper : stringField tx "shipper" = some shipper) :
    handleShip py chain.toState tx = .ok (Chain.toState (chain.set productId q)) := by
  simp only [Product.move] at hq
  split at hq
  · cases hq
  · next hstatus =>
    have hfields : recordFields "in_transit" destination shipper p.checks p.reason = q.fields := by
      rw [← Option.some.inj hq]
      rfl
    simp only [handleShip, bind_eq_ok, raiseIf_eq_ok]
    refine ⟨_, item_of_stringField hid, _, item_of_stringField hdest, _,
      item_of_stringField hshipper, _, getProduct_of_get? hp, _, item_status p, (), ?_, _, rfl, _,
      rfl, _, rfl, putProduct_of_fields hfields⟩
    simpa using hstatus

theorem handleReceive_of_move {receiver : String} (hp : chain.get? productId = some p)
    (hq : p.move (.receive receiver
      ((PyDict.get? tx (.str "at_customs")).getD (.bool false)).truthy) = some q)
    (hid : stringField tx "product_id" = some productId)
    (hreceiver : stringField tx "receiver" = some receiver) :
    handleReceive py chain.toState tx = .ok (Chain.toState (chain.set productId q)) := by
  simp only [Product.move] at hq
  split at hq
  · next hstatus =>
    simp only [handleReceive, bind_eq_ok, raiseIf_eq_ok]
    refine ⟨_, item_of_stringField hid, _, item_of_stringField hreceiver, _, getProduct_of_get? hp,
      _, item_status p, (), by simpa using hstatus, _, rfl, _, rfl, putProduct_of_fields ?_⟩
    rw [← Option.some.inj hq]
    cases ((PyDict.get? tx (.str "at_customs")).getD (.bool false)).truthy <;> rfl
  · cases hq

theorem handleInspect_of_move {checkName : String} (hp : chain.get? productId = some p)
    (hq : p.move (.inspect checkName) = some q)
    (hid : stringField tx "product_id" = some productId)
    (hname : stringField tx "check_name" = some checkName) :
    handleInspect py chain.toState tx = .ok (Chain.toState (chain.set productId q)) := by
  simp only [handleInspect, bind_eq_ok]
  refine ⟨_, item_of_stringField hid, _, item_of_stringField hname, _, getProduct_of_get? hp, _,
    rfl, _, recordCheck_eq p.checks p.sorted checkName, _, rfl, putProduct_of_fields ?_⟩
  rw [← Option.some.inj hq]
  rfl

theorem handleQuarantine_of_move {reason : String} (hp : chain.get? productId = some p)
    (hq : p.move (.quarantine reason) = some q)
    (hid : stringField tx "product_id" = some productId)
    (hreason : stringField tx "reason" = some reason) :
    handleQuarantine py chain.toState tx = .ok (Chain.toState (chain.set productId q)) := by
  simp only [Product.move] at hq
  split at hq
  · cases hq
  · next hstatus =>
    simp only [handleQuarantine, bind_eq_ok, raiseIf_eq_ok]
    refine ⟨_, item_of_stringField hid, _, item_of_stringField hreason, _, getProduct_of_get? hp, _,
      item_status p, (), by simpa using hstatus, _, rfl, _, rfl, putProduct_of_fields ?_⟩
    rw [← Option.some.inj hq]
    simp [Product.fields, p.reason_eq_none hstatus, Status.text]

theorem handleRelease_of_move (hp : chain.get? productId = some p)
    (hq : p.move .release = some q) (hid : stringField tx "product_id" = some productId) :
    handleRelease py chain.toState tx = .ok (Chain.toState (chain.set productId q)) := by
  simp only [Product.move] at hq
  split at hq
  · next hstatus =>
    simp only [handleRelease, bind_eq_ok, raiseIf_eq_ok]
    refine ⟨_, item_of_stringField hid, _, getProduct_of_get? hp, _, item_status p, (),
      by simpa using hstatus, _, rfl, _, rfl, putProduct_of_fields ?_⟩
    rw [← Option.some.inj hq]
    simp [Product.fields, Status.text]
  · cases hq

variable {rt : Runtime}

/-- Where the handlers are registered, the engine accepts what the chain allows. -/
theorem execute_of_submit
    (hr : rt.handlers = registerSupplyChainHandlers rt.toInterp (builtinHandlers rt.toInterp))
    (ht : SupplyTx tx) (h : chain.submit tx = some chain') :
    rt.execute chain.toState tx = .ok chain'.toState := by
  obtain ⟨⟨productId, mv⟩, hread, hmove⟩ := Option.bind_eq_some_iff.mp h
  obtain ⟨p, q, hp, hq, rfl⟩ := Chain.move_eq_some.mp hmove
  obtain ⟨t, -, htype⟩ := ht.type
  have hfield : stringField tx "type" = some t := by rw [stringField, htype]
  have hid := readMovement_product hread
  have hrun {handler : Handler} (hget : registerSupplyChainHandlers rt.toInterp
      (builtinHandlers rt.toInterp) t = some handler) (hok : handler chain.toState tx =
        .ok (Chain.toState (chain.set productId q))) :
      rt.execute chain.toState tx = .ok (Chain.toState (chain.set productId q)) :=
    (execute_eq_ok rt.toInterp).mpr ⟨t, handler, htype, by rw [hr, hget], hok⟩
  simp only [readMovement, hfield, Option.bind_eq_bind, Option.bind_eq_some_iff,
    Option.some.injEq, exists_eq_left'] at hread
  obtain ⟨productId', -, hread⟩ := hread
  split at hread <;> simp only [Option.bind_eq_some_iff, Option.pure_def, Option.some.injEq,
    Prod.mk.injEq, reduceCtorEq] at hread
  · obtain ⟨destination, hdest, shipper, hshipper, rfl, rfl⟩ := hread
    exact hrun rfl (handleShip_of_move hp hq hid hdest hshipper)
  · obtain ⟨receiver, hreceiver, rfl, rfl⟩ := hread
    exact hrun rfl (handleReceive_of_move hp hq hid hreceiver)
  · obtain ⟨checkName, hname, rfl, rfl⟩ := hread
    exact hrun rfl (handleInspect_of_move hp hq hid hname)
  · obtain ⟨reason, hreason, rfl, rfl⟩ := hread
    exact hrun rfl (handleQuarantine_of_move hp hq hid hreason)
  · obtain ⟨rfl, rfl⟩ := hread
    exact hrun rfl (handleRelease_of_move hp hq hid)

end Accepting

/-! ## Runs of the state manager -/

namespace StateManager

variable {rt : Runtime} {chain : Chain} {m : StateManager}

/-- A call submits the transaction to the chain. -/
theorem apply_submit
    (hr : rt.handlers = registerSupplyChainHandlers rt.toInterp (builtinHandlers rt.toInterp))
    (hm : m.state = chain.toState) {tx : Transaction} (ht : SupplyTx tx) :
    (m.apply rt tx).state = (attempt Chain.submit chain tx).toState ∧
      (m.applyTransaction rt tx).2.isOk = (chain.submit tx).isSome := by
  have hmoves (new : State) (h : rt.execute m.state tx = .ok new) : Moves chain tx new := by
    rw [hm] at h
    exact moves_execute (.inr hr) ht h
  have hshape (new : State) (h : rt.execute m.state tx = .ok new) : WellShaped new := by
    obtain ⟨_, chain', -, -, rfl⟩ := hmoves new h
    exact wellShaped_toState chain'
  have hwell : WellShaped m.state := hm ▸ wellShaped_toState chain
  unfold apply
  rcases applyTransaction_wellShaped rt m hwell hshape with
    ⟨e, happ, herr⟩ | ⟨new, trace, happ, hex⟩
  · have hnone : chain.submit tx = none := by
      refine Option.eq_none_iff_forall_ne_some.mpr fun chain' hsubmit => ?_
      rw [hm, execute_of_submit hr ht hsubmit] at herr
      cases herr
    rw [happ, hnone, attempt_of_none hnone]
    exact ⟨hm, rfl⟩
  · obtain ⟨event, chain', hread, hmove, rfl⟩ := hmoves new hex
    have hsubmit : chain.submit tx = some chain' := by
      rw [Chain.submit, hread, Option.bind_some, hmove]
    rw [happ, attempt, hsubmit]
    exact ⟨rfl, rfl⟩

/-- A run submits its transactions one after the other. -/
theorem run_submit
    (hr : rt.handlers = registerSupplyChainHandlers rt.toInterp (builtinHandlers rt.toInterp))
    (hm : m.state = chain.toState) {txs : List Transaction} (ht : ∀ tx ∈ txs, SupplyTx tx) :
    (txs.foldl (apply rt) m).state = (txs.foldl (attempt Chain.submit) chain).toState ∧
      succeeded rt m txs = performed Chain.submit chain txs := by
  induction txs generalizing m chain with
  | nil => exact ⟨hm, rfl⟩
  | cons tx txs ih =>
    rw [List.forall_mem_cons] at ht
    obtain ⟨hstate, hok⟩ := apply_submit hr hm ht.1
    obtain ⟨hlast, hsucceeded⟩ := ih hstate ht.2
    refine ⟨hlast, ?_⟩
    rw [succeeded, performed, hok, hsucceeded]

/-- Without the handlers every call raises. -/
theorem run_builtin (hr : rt.handlers = builtinHandlers rt.toInterp) (m : StateManager)
    {txs : List Transaction} (ht : ∀ tx ∈ txs, SupplyTx tx) :
    txs.foldl (apply rt) m = m ∧ succeeded rt m txs = [] := by
  induction txs with
  | nil => exact ⟨rfl, rfl⟩
  | cons tx txs ih =>
    rw [List.forall_mem_cons] at ht
    obtain ⟨hlast, hsucceeded⟩ := ih ht.2
    have hrejects (new : State) : rt.execute m.state tx ≠ .ok new := by
      intro h
      obtain ⟨t, handler, htype, hget, -⟩ := (execute_eq_ok rt.toInterp).mp h
      obtain ⟨t', hmem, htype'⟩ := ht.1.type
      rw [hr] at hget
      cases htype.symm.trans htype'
      simp only [List.mem_cons, List.not_mem_nil, or_false] at hmem
      rcases hmem with rfl | rfl | rfl | rfl | rfl <;> cases hget
    obtain ⟨e, happ⟩ : ∃ e, m.applyTransaction rt tx = (m, .error e) := by
      rcases applyTransaction_cases rt m tx with
        ⟨e, happ, -⟩ | ⟨new, _, _, -, -, hex, -⟩ | ⟨new, _, _, _, -, -, hex, -⟩
      · exact ⟨e, happ⟩
      · exact (hrejects new hex).elim
      · exact (hrejects new hex).elim
    have hstay : m.apply rt tx = m := by rw [apply, happ]
    rw [List.foldl_cons, succeeded, happ, hstay]
    exact ⟨hlast, hsucceeded⟩

/-- From every state of a supply chain, transactions of which no two that are no inspections
name one product lead to the same state in every order, with the same default hash, and the
same of them succeed. -/
theorem independent_commute (hr : rt.Registered) (useMerkle : Bool) (productIds : List String)
    {past txs txs' : List Transaction} (hpast : ∀ tx ∈ past, SupplyTx tx)
    (htxs : ∀ tx ∈ txs, SupplyTx tx) (hindependent : txs.Pairwise Independent)
    (hperm : txs.Perm txs') :
    let m := past.foldl (apply rt) (.init (some (makeInitialState productIds)) useMerkle)
    let last := txs.foldl (apply rt) m
    let last' := txs'.foldl (apply rt) m
    last'.state = last.state ∧
      (∃ hash, stateHash rt false last.state = .ok hash ∧
        stateHash rt false last'.state = .ok hash) ∧
      (succeeded rt m txs').Perm (succeeded rt m txs) := by
  intro m last last'
  have htxs' : ∀ tx ∈ txs', SupplyTx tx := fun tx h => htxs tx (hperm.mem_iff.mpr h)
  obtain ⟨-, chain, -, -, hm⟩ := run_chain hr
    (m := .init (some (makeInitialState productIds)) useMerkle) (makeInitialState_eq productIds)
    hpast
  suffices h : last'.state = last.state ∧ (∃ final : Chain, last.state = final.toState) ∧
      (succeeded rt m txs').Perm (succeeded rt m txs) by
    obtain ⟨hstate, ⟨final, hfinal⟩, hsucceeded⟩ := h
    obtain ⟨hash, hhash⟩ := stateHash_ok rt (hfinal ▸ wellShaped_toState final) false
    exact ⟨hstate, ⟨hash, hhash, hstate ▸ hhash⟩, hsucceeded⟩
  rcases hr with hr | hr
  · obtain ⟨hlast, hsucceeded⟩ := run_builtin hr m htxs
    obtain ⟨hlast', hsucceeded'⟩ := run_builtin hr m htxs'
    refine ⟨congrArg state (hlast'.trans hlast.symm), ⟨chain, ?_⟩, ?_⟩
    · rw [← hm]
      exact congrArg state hlast
    · rw [hsucceeded, hsucceeded']
  · obtain ⟨hlast, hsucceeded⟩ := run_submit hr hm htxs
    obtain ⟨hlast', hsucceeded'⟩ := run_submit hr hm htxs'
    obtain ⟨hsame, hperformed⟩ := reorder hperm
      (hindependent.imp fun h => Independent.commute h) chain
    refine ⟨?_, ⟨_, hlast⟩, ?_⟩
    · exact hlast'.trans (hsame ▸ hlast.symm)
    · rw [hsucceeded, hsucceeded']
      exact hperformed.symm

/-- After the first shipment of the harbor run the next four transactions may be reversed. -/
theorem harborRun_reversed :
    let rt := referenceRuntime true
    let m := (harborRun.take 1).foldl (apply rt)
      (.init (some (makeInitialState ["P1", "P2"])) false)
    let txs := (harborRun.drop 1).take 4
    (txs.reverse.foldl (apply rt) m).state = (txs.foldl (apply rt) m).state ∧
      (succeeded rt m txs.reverse).Perm (succeeded rt m txs) := by
  intro rt m txs
  have htake (tx : Transaction) (h : tx ∈ harborRun.take 1) : SupplyTx tx :=
    supplyTx_harborRun tx (List.mem_of_mem_take h)
  have htxs (tx : Transaction) (h : tx ∈ txs) : SupplyTx tx :=
    supplyTx_harborRun tx (List.mem_of_mem_drop (List.mem_of_mem_take h))
  have hindependent : txs.Pairwise Independent := by
    simp [txs, harborRun, Independent, stringField, PyDict.get?]
  have hr : rt.Registered := .inr rfl
  obtain ⟨hstate, -, hsucceeded⟩ := independent_commute hr false ["P1", "P2"] htake htxs
    hindependent txs.reverse_perm.symm
  exact ⟨hstate, hsucceeded⟩

end StateManager
end ECN
