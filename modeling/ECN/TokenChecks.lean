import ECN.Auth
import ECN.JsonLoads
import ECN.ReferenceRuntime

/-!
# Which tokens give a role

A token gives a role when it carries a signature of the secret over a JSON object whose
times, issuer, audience and role pass. The checks read the claims without looking at their
types, so a signed payload of another shape ends in an exception that no handler turns
into a response, and a boolean passes for a time.
-/
namespace ECN

/-! ## Splitting at dots -/

section Dots

open String

theorem splitOnAux_dot (l m r : List Char) (acc : List String) :
    splitOnAux (ofList (l ++ m ++ r)) "." ⟨utf8Len l⟩ ⟨utf8Len l + utf8Len m⟩ 0 acc =
      acc.reverse ++ (List.splitOnPPrepend (· == '.') r m.reverse).map ofList := by
  have hsep : Pos.Raw.get "." 0 = '.' := by decide
  have hnext : Pos.Raw.next "." 0 = ⟨1⟩ := by decide
  have hend : Pos.Raw.atEnd "." ⟨1⟩ = true := by decide
  have hback : ∀ n, (⟨n + 1⟩ : Pos.Raw).unoffsetBy ⟨1⟩ = ⟨n⟩ := fun n => rfl
  have hzero : ∀ n, (⟨n⟩ : Pos.Raw).unoffsetBy 0 = ⟨n⟩ := fun n => rfl
  induction r generalizing l m acc with
  | nil =>
    have hpart := extract_of_valid l m []
    have hout : Pos.Raw.atEnd (ofList (l ++ m ++ [])) ⟨utf8Len l + utf8Len m⟩ = true := by
      simp [atEnd_iff, -ofList_append]
    rw [splitOnAux, if_pos hout]
    simp only [hpart]
    simp
  | cons c r ih =>
    have hget := get_of_valid (l ++ m) (c :: r)
    have hstep := next_of_valid (l ++ m) c r
    have hpart := extract_of_valid l m (c :: r)
    have hin : ¬ Pos.Raw.atEnd (ofList (l ++ m ++ c :: r)) ⟨utf8Len l + utf8Len m⟩ = true := by
      have := c.utf8Size_pos
      simp only [atEnd_iff, rawEndPos_ofList, utf8Len_append, utf8Len_cons, Pos.Raw.mk_le_mk]
      omega
    rw [utf8Len_append] at hget hstep
    rw [splitOnAux, if_neg hin, hsep, hget, hnext, hzero, hstep]
    dsimp only
    by_cases hc : c = '.'
    · subst hc
      have hsize : '.'.utf8Size = 1 := by decide
      have hrest := ih (l ++ m ++ ['.']) [] (ofList m :: acc)
      have hlen : utf8Len (l ++ m ++ ['.']) = utf8Len l + utf8Len m + 1 := by
        simp [hsize, Nat.add_assoc]
      rw [hlen] at hrest
      simp only [List.headD_cons, beq_self_eq_true, if_true, hsize, hback, hpart, hend]
      simpa [List.splitOnPPrepend_cons_eq_if] using hrest
    · have hrest := ih l (m ++ [c]) acc
      simp only [List.headD_cons, beq_iff_eq, hc, if_false]
      simpa [List.splitOnPPrepend_cons_eq_if, hc, Nat.add_assoc] using hrest

/-- Splitting a text at dots is splitting its characters. -/
theorem splitOn_dot (s : String) :
    s.splitOn "." = (s.toList.splitOnP (· == '.')).map ofList := by
  have h := splitOnAux_dot [] [] s.toList []
  rw [List.append_nil, List.nil_append, ofList_toList] at h
  exact h

end Dots

/-! ## Claims -/

namespace Value

/-- An integer or a float; a boolean is none, although it compares as one. -/
def isNumber : Value → Bool
  | .int _ | .scalar (.float _) => true
  | _ => false

/-- What a comparison with the clock sees. -/
def clockValue : Value → Option ExtRat
  | .scalar s => s.num
  | .list _ | .dict _ => Option.none

def isBefore (now : PyFloat) (v : Value) : Bool := v.clockValue.any fun x => x.lt now.ext

def isAfter (now : PyFloat) (v : Value) : Bool := v.clockValue.any fun x => now.ext.lt x

theorem clockValue_of_isNumber {v : Value} (h : v.isNumber = true) : v.clockValue.isSome := by
  cases v with
  | scalar s => cases s <;> simp_all [isNumber, clockValue, Scalar.num]
  | list vs => cases h
  | dict es => cases h

theorem lt_clock (v : Value) (now : PyFloat) : v.lt (.scalar (.float now)) =
    if v.clockValue.isSome then .ok (v.isBefore now) else .error .typeError := by
  unfold isBefore
  cases v with
  | scalar s => cases s <;> rfl
  | list vs => rfl
  | dict es => rfl

theorem clock_lt (v : Value) (now : PyFloat) : (Value.scalar (.float now)).lt v =
    if v.clockValue.isSome then .ok (v.isAfter now) else .error .typeError := by
  unfold isAfter
  cases v with
  | scalar s => cases s <;> rfl
  | list vs => rfl
  | dict es => rfl

theorem eq_str (v : Value) (s : String) : v.eq (.str s) = decide (v = .str s) := by
  cases v with
  | scalar t => simp [eq]
  | list vs => simp [eq]
  | dict es => simp [eq]

end Value

namespace PyDict

/-- The claim can be compared with the clock, when there is one. -/
def Compares (claims : PyDict) (name : String) : Prop :=
  ∀ v ∈ claims.get? (.str name), v.clockValue.isSome

/-- The claim is a number, when there is one. -/
def HasNumber (claims : PyDict) (name : String) : Prop :=
  ∀ v ∈ claims.get? (.str name), v.isNumber = true

/-- The token has expired. -/
def Expired (claims : PyDict) (now : PyFloat) : Prop :=
  ∃ v ∈ claims.get? (.str "exp"), v.isBefore now = true

/-- The token is not yet valid. -/
def NotYetValid (claims : PyDict) (now : PyFloat) : Prop :=
  ∃ v ∈ claims.get? (.str "nbf"), v.isAfter now = true

/-- The issuer is the configured one, when one is. -/
def NamesIssuer (claims : PyDict) (env : AuthEnv) : Prop :=
  pyStrip env.jwtIssuer = "" ∨
    claims.get? (.str "iss") = some (.str (pyStrip env.jwtIssuer))

def audienceList : Value → List Value
  | .list vs => vs
  | v => [v]

/-- The configured audience is the claim or in its list, when one is configured. -/
def NamesAudience (claims : PyDict) (env : AuthEnv) : Prop :=
  pyStrip env.jwtAudience = "" ∨
    ∃ v ∈ claims.get? (.str "aud"), .str (pyStrip env.jwtAudience) ∈ audienceList v

/-- `claims.get("role") or claims.get("ecn_role")`. -/
def roleClaim (claims : PyDict) : Value :=
  let role := (claims.get? (.str "role")).getD .none
  if role.truthy then role else (claims.get? (.str "ecn_role")).getD .none

instance (claims : PyDict) (name : String) : Decidable (claims.Compares name) :=
  inferInstanceAs (Decidable (∀ v ∈ _, _))

instance (claims : PyDict) (now : PyFloat) : Decidable (claims.Expired now) :=
  inferInstanceAs (Decidable (∃ v ∈ _, _))

instance (claims : PyDict) (now : PyFloat) : Decidable (claims.NotYetValid now) :=
  inferInstanceAs (Decidable (∃ v ∈ _, _))

instance (claims : PyDict) (env : AuthEnv) : Decidable (claims.NamesIssuer env) :=
  inferInstanceAs (Decidable (_ ∨ _))

instance (claims : PyDict) (env : AuthEnv) : Decidable (claims.NamesAudience env) :=
  inferInstanceAs (Decidable (_ ∨ ∃ v ∈ _, _))

end PyDict

/-! ## What the checks do with an object -/

@[simp] theorem orInternal_ok {α : Type} (a : α) : orInternal (.ok a) = .ok a := rfl

@[simp] theorem orInternal_error {α : Type} (e : Exc) :
    orInternal (.error e : Except Exc α) = .error internalServerError := rfl

theorem throw_eq_error {ε α : Type} (e : ε) : (throw e : Except ε α) = .error e := rfl

theorem ite_bind {ε α β : Type} (c : Prop) [Decidable c] (x y : Except ε α) (f : α → Except ε β) :
    (if c then x else y) >>= f = if c then x >>= f else y >>= f := by
  split <;> rfl

variable (env : AuthEnv) (now : PyFloat)

/-- The form of the two checks that compare a time with the clock. -/
def checkTime (name detail : String) (compare : Value → Except Exc Bool) (claims : Value) :
    Except HttpError Unit := do
  if ← orInternal (claims.contains (.str name)) then
    let time ← orInternal (claims.item (.str name))
    if ← orInternal (compare time) then throw ⟨401, detail⟩

def checkExpires (claims : Value) : Except HttpError Unit := do
  if ← orInternal (claims.contains (.str "exp")) then
    let expires ← orInternal (claims.item (.str "exp"))
    if ← orInternal (expires.lt (.scalar (.float now))) then
      throw ⟨401, "Bearer token has expired"⟩

def checkNotBefore (claims : Value) : Except HttpError Unit := do
  if ← orInternal (claims.contains (.str "nbf")) then
    let notBefore ← orInternal (claims.item (.str "nbf"))
    if ← orInternal ((Value.scalar (.float now)).lt notBefore) then
      throw ⟨401, "Bearer token not yet valid"⟩

def checkIssuer (claims : Value) : Except HttpError Unit := do
  let expectedIss := pyStrip env.jwtIssuer
  if expectedIss ≠ "" then
    let issuer ← orInternal (claims.getOr (.str "iss") .none)
    if !issuer.eq (.str expectedIss) then
      throw ⟨401, "Bearer token issuer mismatch"⟩

def checkAudience (claims : Value) : Except HttpError Unit := do
  let expectedAud := pyStrip env.jwtAudience
  if expectedAud ≠ "" then
    let audience ← orInternal (claims.getOr (.str "aud") (.str ""))
    if !(PyDict.audienceList audience).any fun v => v.eq (.str expectedAud) then
      throw ⟨401, "Bearer token audience mismatch"⟩

/-- The standard claims are checked one after the other. -/
theorem checkClaims_eq (claims : Value) : checkClaims env now claims = (do
    checkExpires now claims
    checkNotBefore now claims
    checkIssuer env claims
    checkAudience env claims) := by
  unfold checkClaims checkExpires checkNotBefore checkIssuer
  simp only [bind_assoc, ite_bind, pure_bind]
  rfl

section Objects

variable (claims : PyDict)

/-- A time in the claims is compared with the clock, when there is one. -/
theorem checkTime_dict (name detail : String) {compare : Value → Except Exc Bool}
    {late : Value → Bool} (hcompare : ∀ v, compare v =
      if v.clockValue.isSome then .ok (late v) else .error .typeError)
    {out : Prop} [Decidable out] (hout : out ↔ ∃ v ∈ claims.get? (.str name), late v = true) :
    checkTime name detail compare (.dict claims) =
      if ¬ claims.Compares name then .error internalServerError
      else if out then .error ⟨401, detail⟩
      else .ok () := by
  have hin : (Value.dict claims).contains (.str name) =
      .ok (claims.get? (.str name)).isSome := rfl
  rw [checkTime, hin]
  cases hget : claims.get? (.str name) with
  | none =>
    have hcomp : claims.Compares name := by simp [PyDict.Compares, hget]
    have hno : ¬ out := by simp [hout, hget]
    simp [hcomp, hno, pure, Except.pure, bind, Except.bind]
  | some v =>
    have hcomp : claims.Compares name ↔ v.clockValue.isSome = true := by
      simp [PyDict.Compares, hget]
    have hlateOut : out ↔ late v = true := by simp [hout, hget]
    have hitem : (Value.dict claims).item (.str name) = .ok v := PyDict.item_eq_ok.mpr hget
    by_cases hclock : v.clockValue.isSome = true
    · cases hlate : late v <;>
        simp [hcomp, hlateOut, hitem, hcompare, hclock, hlate, throw_eq_error, bind, Except.bind,
          pure, Except.pure]
    · simp [hcomp, hitem, hcompare, hclock, bind, Except.bind]

theorem checkExpires_dict : checkExpires now (.dict claims) =
    if ¬ claims.Compares "exp" then .error internalServerError
    else if claims.Expired now then .error ⟨401, "Bearer token has expired"⟩
    else .ok () :=
  checkTime_dict claims "exp" "Bearer token has expired" (fun v => v.lt_clock now) Iff.rfl

theorem checkNotBefore_dict : checkNotBefore now (.dict claims) =
    if ¬ claims.Compares "nbf" then .error internalServerError
    else if claims.NotYetValid now then .error ⟨401, "Bearer token not yet valid"⟩
    else .ok () :=
  checkTime_dict claims "nbf" "Bearer token not yet valid" (fun v => v.clock_lt now) Iff.rfl

theorem checkIssuer_dict : checkIssuer env (.dict claims) =
    if claims.NamesIssuer env then .ok () else .error ⟨401, "Bearer token issuer mismatch"⟩ := by
  unfold checkIssuer PyDict.NamesIssuer
  by_cases hiss : pyStrip env.jwtIssuer = ""
  · simp [hiss, pure, Except.pure]
  · have hget : (Value.dict claims).getOr (.str "iss") .none =
        .ok ((claims.get? (.str "iss")).getD .none) := rfl
    simp only [hget, orInternal_ok, Value.eq_str, hiss, ne_eq, not_false_eq_true, if_true,
      false_or, bind, Except.bind]
    cases hval : claims.get? (.str "iss") with
    | none => simp [throw_eq_error]
    | some v =>
      by_cases hv : v = .str (pyStrip env.jwtIssuer) <;>
        simp [hv, throw_eq_error, pure, Except.pure]

theorem checkAudience_dict : checkAudience env (.dict claims) =
    if claims.NamesAudience env then .ok ()
    else .error ⟨401, "Bearer token audience mismatch"⟩ := by
  unfold checkAudience PyDict.NamesAudience
  by_cases haud : pyStrip env.jwtAudience = ""
  · simp [haud, pure, Except.pure]
  · have hget : (Value.dict claims).getOr (.str "aud") (.str "") =
        .ok ((claims.get? (.str "aud")).getD (.str "")) := rfl
    have hany : ∀ vs : List Value, (vs.any fun v => v.eq (.str (pyStrip env.jwtAudience))) =
        decide (Value.str (pyStrip env.jwtAudience) ∈ vs) := by
      intro vs
      simp [Value.eq_str, List.any_eq]
    simp only [hget, orInternal_ok, hany, haud, ne_eq, not_false_eq_true, if_true, false_or,
      bind, Except.bind]
    cases hval : claims.get? (.str "aud") with
    | none => simp [PyDict.audienceList, haud, throw_eq_error]
    | some v =>
      by_cases hv : Value.str (pyStrip env.jwtAudience) ∈ PyDict.audienceList v <;>
        simp [hv, throw_eq_error, pure, Except.pure]

end Objects

/-- The four checks on an object, in their order. -/
theorem checkClaims_dict (claims : PyDict) : checkClaims env now (.dict claims) =
    if ¬ claims.Compares "exp" then .error internalServerError
    else if claims.Expired now then .error ⟨401, "Bearer token has expired"⟩
    else if ¬ claims.Compares "nbf" then .error internalServerError
    else if claims.NotYetValid now then .error ⟨401, "Bearer token not yet valid"⟩
    else if ¬ claims.NamesIssuer env then .error ⟨401, "Bearer token issuer mismatch"⟩
    else if ¬ claims.NamesAudience env then .error ⟨401, "Bearer token audience mismatch"⟩
    else .ok () := by
  rw [checkClaims_eq, checkExpires_dict, checkNotBefore_dict, checkIssuer_dict,
    checkAudience_dict]
  split_ifs <;> rfl

/-- The known role that a claim names. -/
def knownRole (role : Value) : Except HttpError Role := do
  let invalid : HttpError := ⟨403, "Bearer token missing valid 'role' claim. Valid roles: " ++
    reprTexts (Role.all.map Role.value)⟩
  if !role.truthy then throw invalid
  match ← orInternal role.asKey with
  | .str s =>
    match Role.parse s with
    | some role => return role
    | none => throw invalid
  | _ => throw invalid

theorem roleOfClaims_dict (claims : PyDict) :
    roleOfClaims (.dict claims) = knownRole claims.roleClaim := by
  have hrole : (Value.dict claims).getOr (.str "role") .none =
      .ok ((claims.get? (.str "role")).getD .none) := rfl
  have hecn : (Value.dict claims).getOr (.str "ecn_role") .none =
      .ok ((claims.get? (.str "ecn_role")).getD .none) := rfl
  have hsteps : roleOfClaims (.dict claims) =
      if ((claims.get? (.str "role")).getD .none).truthy = true
      then knownRole ((claims.get? (.str "role")).getD .none)
      else knownRole ((claims.get? (.str "ecn_role")).getD .none) := by
    rw [roleOfClaims, hrole, hecn]
    rfl
  rw [hsteps]
  exact (apply_ite knownRole _ _ _).symm

theorem Role.value_ne_empty (r : Role) : r.value ≠ "" := by
  cases r <;> decide

theorem Role.parse_eq_some_iff (s : String) (r : Role) : Role.parse s = some r ↔ s = r.value := by
  constructor
  · intro h
    have hname := List.find?_some h
    exact (of_decide_eq_true hname).symm
  · rintro rfl
    exact Role.parse_value r

theorem knownRole_eq_ok_iff (role : Value) (r : Role) :
    knownRole role = .ok r ↔ role = .str r.value := by
  unfold knownRole
  constructor
  · intro h
    cases htruthy : role.truthy with
    | false => simp [htruthy, throw_eq_error, bind, Except.bind] at h
    | true =>
      simp only [htruthy, Bool.not_true, Bool.false_eq_true, if_false, bind, Except.bind] at h
      cases role with
      | list vs => simp [Value.asKey] at h
      | dict es => simp [Value.asKey] at h
      | scalar s =>
        cases s with
        | str s =>
          cases hparse : Role.parse s with
          | none => simp [Value.asKey, hparse, throw_eq_error] at h
          | some role =>
            simp only [Value.asKey, orInternal_ok, hparse, pure, Except.pure, Except.ok.injEq] at h
            rw [← h, (Role.parse_eq_some_iff s role).mp hparse]
        | none => simp [Value.asKey, throw_eq_error] at h
        | bool b => simp [Value.asKey, throw_eq_error] at h
        | int n => simp [Value.asKey, throw_eq_error] at h
        | float x => simp [Value.asKey, throw_eq_error] at h
  · rintro rfl
    have htruthy : (Value.str r.value).truthy = true := by
      simpa [Value.truthy, Scalar.truthy] using r.value_ne_empty
    simp [htruthy, Value.asKey, Role.parse_value, bind, Except.bind, pure, Except.pure]

/-- Only a container that is not empty makes the lookup of a role raise. -/
theorem statusCode_knownRole {role : Value} {e : HttpError} (h : knownRole role = .error e) :
    e.statusCode = if role.truthy = true ∧ role.asKey.isOk = false then 500 else 403 := by
  unfold knownRole at h
  cases htruthy : role.truthy with
  | false =>
    simp only [htruthy, Bool.not_false, if_true, throw_eq_error, bind, Except.bind,
      Except.error.injEq] at h
    rw [← h]
    simp
  | true =>
    simp only [htruthy, Bool.not_true, Bool.false_eq_true, if_false, bind, Except.bind] at h
    cases role with
    | list vs => cases h; rfl
    | dict es => cases h; rfl
    | scalar s =>
      simp only [Value.asKey, orInternal_ok] at h
      split at h
      · split at h
        · cases h
        · cases h; rfl
      · cases h; rfl

/-! ## Claims that are no object -/

section NoObject

variable {claims : Value} (h : ∀ d, claims ≠ .dict d)
include h

theorem getOr_of_not_dict (key default : Value) :
    orInternal (claims.getOr key default) = .error internalServerError := by
  cases claims with
  | dict es => exact absurd rfl (h es)
  | scalar s => rfl
  | list vs => rfl

theorem item_of_not_dict (name : String) :
    orInternal (claims.item (.str name)) = .error internalServerError := by
  cases claims with
  | dict es => exact absurd rfl (h es)
  | scalar s => rfl
  | list vs => rfl

theorem checkTime_of_not_dict (name detail : String) (compare : Value → Except Exc Bool) :
    checkTime name detail compare claims = .ok () ∨
      checkTime name detail compare claims = .error internalServerError := by
  have hitem := item_of_not_dict h name
  unfold checkTime
  cases claims.contains (.str name) with
  | error e => simp [bind, Except.bind]
  | ok found => cases found <;> simp [hitem, bind, Except.bind, pure, Except.pure]

theorem checkIssuer_of_not_dict : checkIssuer env claims = .ok () ∨
    checkIssuer env claims = .error internalServerError := by
  unfold checkIssuer
  by_cases hempty : pyStrip env.jwtIssuer = "" <;>
    simp [hempty, getOr_of_not_dict h, bind, Except.bind, pure, Except.pure]

theorem checkAudience_of_not_dict : checkAudience env claims = .ok () ∨
    checkAudience env claims = .error internalServerError := by
  unfold checkAudience
  by_cases hempty : pyStrip env.jwtAudience = "" <;>
    simp [hempty, getOr_of_not_dict h, bind, Except.bind, pure, Except.pure]

/-- A value that is no object raises where its claims are read, at the role at the latest. -/
theorem checks_of_not_dict : ((checkClaims env now claims).bind fun _ => roleOfClaims claims) =
    .error internalServerError := by
  have hrole : roleOfClaims claims = .error internalServerError := by
    unfold roleOfClaims
    rw [getOr_of_not_dict h]
    rfl
  have hexp : checkExpires now claims = .ok () ∨
      checkExpires now claims = .error internalServerError :=
    checkTime_of_not_dict h "exp" _ _
  have hnbf : checkNotBefore now claims = .ok () ∨
      checkNotBefore now claims = .error internalServerError :=
    checkTime_of_not_dict h "nbf" _ _
  rw [checkClaims_eq]
  rcases hexp with hexp | hexp <;> rcases hnbf with hnbf | hnbf <;>
    rcases checkIssuer_of_not_dict env h with hiss | hiss <;>
      rcases checkAudience_of_not_dict env h with haud | haud <;>
        simp [hexp, hnbf, hiss, haud, hrole, bind, Except.bind]

end NoObject

/-! ## Tokens -/

variable (crypto : Crypto) (jsonLoads : JsonLoads) (token : String)

/-- The token carries a signature of the configured secret over the claims. -/
def SignedClaims (claims : Value) : Prop :=
  pyStrip env.jwtSecret ≠ "" ∧ ∃ header payload signature,
    token.splitOn "." = [header, payload, signature] ∧
    decodePadded signature = some (hmacSha256 crypto (utf8 (pyStrip env.jwtSecret))
      (utf8 (header ++ "." ++ payload))) ∧
    (decodePadded payload).bind jsonLoads = some claims

variable {env crypto jsonLoads token}

theorem verify_of_signedClaims {claims : Value}
    (h : SignedClaims env crypto jsonLoads token claims) :
    verifyJwtAndGetRole crypto jsonLoads env now token =
      (checkClaims env now claims).bind fun _ => roleOfClaims claims := by
  obtain ⟨hsecret, header, payload, signature, hparts, hsig, hload⟩ := h
  unfold verifyJwtAndGetRole
  simp only [hsecret, if_false, hparts, hsig, ne_eq, not_true_eq_false, hload]
  cases checkClaims env now claims <;> rfl

theorem verify_of_unsigned (h : ∀ claims, ¬ SignedClaims env crypto jsonLoads token claims) :
    ∃ detail, verifyJwtAndGetRole crypto jsonLoads env now token = .error ⟨401, detail⟩ := by
  unfold verifyJwtAndGetRole
  by_cases hsecret : pyStrip env.jwtSecret = ""
  · simp [hsecret]
  · simp only [hsecret, if_false]
    split
    · next header payload signature hparts =>
      cases hsig : decodePadded signature with
      | none => simp
      | some actual =>
        by_cases hmac : hmacSha256 crypto (utf8 (pyStrip env.jwtSecret))
            (utf8 (header ++ "." ++ payload)) = actual
        · cases hload : (decodePadded payload).bind jsonLoads with
          | none => simp [hmac]
          | some claims =>
            exact absurd ⟨hsecret, header, payload, signature, hparts, hmac ▸ hsig, hload⟩
              (h claims)
        · simp [hmac]
    · simp

theorem SignedClaims.unique {claims claims' : Value}
    (h : SignedClaims env crypto jsonLoads token claims)
    (h' : SignedClaims env crypto jsonLoads token claims') : claims = claims' := by
  obtain ⟨-, header, payload, signature, hparts, -, hload⟩ := h
  obtain ⟨-, header', payload', signature', hparts', -, hload'⟩ := h'
  rw [hparts, List.cons.injEq, List.cons.injEq] at hparts'
  obtain ⟨-, rfl, -⟩ := hparts'
  exact Option.some.inj (hload.symm.trans hload')

variable (env crypto jsonLoads token)

/-- The token is signed over an object with valid times, the configured issuer and audience
and this role. -/
def GivesRole (r : Role) : Prop :=
  ∃ claims : PyDict, SignedClaims env crypto jsonLoads token (.dict claims) ∧
    (claims.HasNumber "exp" ∧ ¬ claims.Expired now) ∧
    (claims.HasNumber "nbf" ∧ ¬ claims.NotYetValid now) ∧
    claims.NamesIssuer env ∧ claims.NamesAudience env ∧ claims.roleClaim = .str r.value

/-- The role comes back for exactly these tokens, and any other token is refused with a
response that says so. -/
structure ChecksToken : Prop where
  returns : ∀ r, verifyJwtAndGetRole crypto jsonLoads env now token = .ok r ↔
    GivesRole env now crypto jsonLoads token r
  refuses : ∀ e, verifyJwtAndGetRole crypto jsonLoads env now token = .error e →
    e.statusCode = 401 ∨ e.statusCode = 403

/-- Every value that is read has a type that its check can use: times compare with the
clock, the role is no container with elements, and where a role is found the times are
numbers. -/
def PyDict.Readable (claims : PyDict) : Prop :=
  claims.Compares "exp" ∧ (¬ claims.Expired now → claims.Compares "nbf" ∧
    (¬ claims.NotYetValid now → claims.NamesIssuer env → claims.NamesAudience env →
      (claims.roleClaim.truthy = true → claims.roleClaim.asKey.isOk = true) ∧
      ∀ r : Role, claims.roleClaim = .str r.value →
        claims.HasNumber "exp" ∧ claims.HasNumber "nbf"))

variable {env crypto jsonLoads token}

theorem PyDict.HasNumber.compares {claims : PyDict} {name : String}
    (h : claims.HasNumber name) : claims.Compares name :=
  fun v hv => Value.clockValue_of_isNumber (h v hv)

theorem givesRole_iff {claims : PyDict}
    (h : SignedClaims env crypto jsonLoads token (.dict claims)) (r : Role) :
    GivesRole env now crypto jsonLoads token r ↔
      (claims.HasNumber "exp" ∧ ¬ claims.Expired now) ∧
      (claims.HasNumber "nbf" ∧ ¬ claims.NotYetValid now) ∧
      claims.NamesIssuer env ∧ claims.NamesAudience env ∧ claims.roleClaim = .str r.value := by
  constructor
  · rintro ⟨claims', h', hrest⟩
    obtain rfl := Value.dict.inj (h.unique h')
    exact hrest
  · exact fun hrest => ⟨claims, h, hrest⟩

variable {now}

/-- A refusal is right when it is no internal error and the token gives no role. -/
theorem checksToken_of_refused {e : HttpError}
    (hverify : verifyJwtAndGetRole crypto jsonLoads env now token = .error e)
    (hno : ∀ r, ¬ GivesRole env now crypto jsonLoads token r) :
    ChecksToken env now crypto jsonLoads token ↔ e.statusCode = 401 ∨ e.statusCode = 403 := by
  constructor
  · exact fun hchecks => hchecks.refuses e hverify
  · intro hstatus
    refine ⟨fun r => ?_, fun e' he' => ?_⟩
    · rw [hverify]
      simp [hno r]
    · rw [hverify] at he'
      rwa [← Except.error.inj he']

/-- A check that refuses settles the matter, and what follows may assume that it passed. -/
theorem checksToken_guard {refused good : Prop} [Decidable refused] {e : HttpError}
    {checks : Except HttpError Unit} {rest : Unit → Except HttpError Role}
    (hverify : verifyJwtAndGetRole crypto jsonLoads env now token =
      (if refused then .error e else checks).bind rest)
    (hno : refused → ∀ r, ¬ GivesRole env now crypto jsonLoads token r)
    (hclean : refused → (good ↔ e.statusCode = 401 ∨ e.statusCode = 403))
    (hpassed : ¬ refused →
      verifyJwtAndGetRole crypto jsonLoads env now token = checks.bind rest →
        (ChecksToken env now crypto jsonLoads token ↔ good)) :
    ChecksToken env now crypto jsonLoads token ↔ good := by
  by_cases hrefused : refused
  · rw [if_pos hrefused] at hverify
    rw [checksToken_of_refused hverify (hno hrefused)]
    exact (hclean hrefused).symm
  · rw [if_neg hrefused] at hverify
    exact hpassed hrefused hverify

/-- Over an object: a role for exactly the right tokens, and a clean refusal of the others,
if and only if every value that is read has a type that its check can use. -/
theorem checksToken_dict_iff {claims : PyDict}
    (h : SignedClaims env crypto jsonLoads token (.dict claims)) :
    ChecksToken env now crypto jsonLoads token ↔ claims.Readable env now := by
  have hverify := verify_of_signedClaims now h
  have hgives := givesRole_iff now h
  unfold PyDict.Readable
  rw [checkClaims_dict] at hverify
  refine checksToken_guard hverify (fun hexp r hr => hexp ((hgives r).mp hr).1.1.compares)
    (fun hexp => by simp [hexp, internalServerError]) fun hexp hverify => ?_
  rw [not_not] at hexp
  refine checksToken_guard hverify (fun hpast r hr => ((hgives r).mp hr).1.2 hpast)
    (fun hpast => by simp [hexp, hpast]) fun hpast hverify => ?_
  refine checksToken_guard hverify (fun hnbf r hr => hnbf ((hgives r).mp hr).2.1.1.compares)
    (fun hnbf => by simp [hpast, hnbf, internalServerError]) fun hnbf hverify => ?_
  rw [not_not] at hnbf
  refine checksToken_guard hverify (fun hfuture r hr => ((hgives r).mp hr).2.1.2 hfuture)
    (fun hfuture => by simp [hexp, hnbf, hfuture]) fun hfuture hverify => ?_
  refine checksToken_guard hverify (fun hiss r hr => hiss ((hgives r).mp hr).2.2.1)
    (fun hiss => by simp [hexp, hnbf, hiss]) fun hiss hverify => ?_
  rw [not_not] at hiss
  refine checksToken_guard hverify (fun haud r hr => haud ((hgives r).mp hr).2.2.2.1)
    (fun haud => by simp [hexp, hnbf, haud]) fun haud hverify => ?_
  rw [not_not] at haud
  replace hverify : verifyJwtAndGetRole crypto jsonLoads env now token =
      knownRole claims.roleClaim := hverify.trans (roleOfClaims_dict claims)
  simp only [hexp, hpast, hnbf, hfuture, hiss, haud, not_false_eq_true, true_and, forall_const,
    and_true] at hgives ⊢
  constructor
  · intro hchecks
    refine ⟨fun htruthy => ?_, fun r hr => ?_⟩
    · cases hknown : knownRole claims.roleClaim with
      | ok r =>
        rw [(knownRole_eq_ok_iff _ r).mp hknown]
        rfl
      | error e =>
        have hclean := hchecks.refuses e (hverify.trans hknown)
        rw [statusCode_knownRole hknown] at hclean
        by_contra hkey
        rw [Bool.not_eq_true] at hkey
        simp [htruthy, hkey] at hclean
    · have hok := hverify.trans ((knownRole_eq_ok_iff _ r).mpr hr)
      have hall := (hgives r).mp ((hchecks.returns r).mp hok)
      exact ⟨hall.1, hall.2.1⟩
  · rintro ⟨hkey, htimes⟩
    refine ⟨fun r => ?_, fun e he => ?_⟩
    · rw [hverify, knownRole_eq_ok_iff, hgives]
      constructor
      · intro hr
        obtain ⟨h₁, h₂⟩ := htimes r hr
        exact ⟨h₁, h₂, hr⟩
      · exact fun hall => hall.2.2
    · rw [statusCode_knownRole (hverify.symm.trans he), if_neg]
      · exact .inr rfl
      · intro hraises
        simp [hkey hraises.1] at hraises

/-- A token is checked as it should be if and only if its signed claims, when there are
any, are an object with readable values. -/
theorem checksToken_iff : ChecksToken env now crypto jsonLoads token ↔
    ∀ claims, SignedClaims env crypto jsonLoads token claims →
      ∃ d : PyDict, claims = .dict d ∧ d.Readable env now := by
  by_cases hsigned : ∃ claims, SignedClaims env crypto jsonLoads token claims
  · obtain ⟨claims, hclaims⟩ := hsigned
    have honly : (∀ claims', SignedClaims env crypto jsonLoads token claims' →
        ∃ d : PyDict, claims' = .dict d ∧ d.Readable env now) ↔
        ∃ d : PyDict, claims = .dict d ∧ d.Readable env now :=
      ⟨fun hall => hall claims hclaims, fun hone claims' h' => h'.unique hclaims ▸ hone⟩
    rw [honly]
    by_cases hdict : ∃ d, claims = .dict d
    · obtain ⟨d, rfl⟩ := hdict
      rw [checksToken_dict_iff hclaims]
      simp
    · have hverify := (verify_of_signedClaims now hclaims).trans
        (checks_of_not_dict env now (not_exists.mp hdict))
      have hno : ∀ r, ¬ GivesRole env now crypto jsonLoads token r := by
        rintro r ⟨d, hd, -⟩
        exact hdict ⟨d, hclaims.unique hd⟩
      rw [checksToken_of_refused hverify hno]
      constructor
      · intro hstatus
        simp [internalServerError] at hstatus
      · rintro ⟨d, rfl, -⟩
        exact absurd ⟨d, rfl⟩ hdict
  · rw [not_exists] at hsigned
    obtain ⟨detail, hverify⟩ := verify_of_unsigned now hsigned
    have hno : ∀ r, ¬ GivesRole env now crypto jsonLoads token r :=
      fun r hr => hsigned _ hr.choose_spec.1
    rw [checksToken_of_refused hverify hno]
    simp [hsigned]

/-! ## A list as role -/

/-- `json.loads` on bytes that are ASCII. -/
def asciiLoads : JsonLoads := fun bytes =>
  ECN.jsonLoads (String.ofList (bytes.map fun b => Char.ofNat b.toNat))

/-- Only the secret is configured. -/
def secretEnv : AuthEnv := ⟨"1", "", "test-secret", "", ""⟩

def listRoleHeader : String := "eyJhbGciOiAiSFMyNTYiLCAidHlwIjogIkpXVCJ9"

def listRolePayload : String := "eyJyb2xlIjogWyJhZG1pbiJdfQ"

def listRoleSignature : String := "vHjAltX-hlAz0tX0XwtuqH33ETLdCi8O2ql1WPhtSfM"

/-- A token over `{"role": ["admin"]}`. -/
def listRoleToken : String :=
  listRoleHeader ++ "." ++ listRolePayload ++ "." ++ listRoleSignature

theorem splitOn_listRoleToken :
    listRoleToken.splitOn "." = [listRoleHeader, listRolePayload, listRoleSignature] := by
  rw [splitOn_dot]
  decide +kernel

theorem signature_listRoleToken : decodePadded listRoleSignature =
    some (hmacSha256 referenceCrypto (utf8 (pyStrip secretEnv.jwtSecret))
      (utf8 (listRoleHeader ++ "." ++ listRolePayload))) := by
  decide +kernel

theorem payload_listRoleToken : (decodePadded listRolePayload).bind asciiLoads =
    some (.dict [(.str "role", .list [.str "admin"])]) := by
  decide +kernel

/-- A signed token with a list as role is answered with an internal error. -/
theorem listRoleToken_internal :
    verifyJwtAndGetRole referenceCrypto asciiLoads secretEnv .negZero listRoleToken =
      .error internalServerError ∧
    ¬ ChecksToken secretEnv .negZero referenceCrypto asciiLoads listRoleToken := by
  have hsigned : SignedClaims secretEnv referenceCrypto asciiLoads listRoleToken
      (.dict [(.str "role", .list [.str "admin"])]) :=
    ⟨by decide, _, _, _, splitOn_listRoleToken, signature_listRoleToken, payload_listRoleToken⟩
  have hverify := verify_of_signedClaims .negZero hsigned
  have hinternal : verifyJwtAndGetRole referenceCrypto asciiLoads secretEnv .negZero
      listRoleToken = .error internalServerError := hverify.trans (by rfl)
  refine ⟨hinternal, fun hchecks => ?_⟩
  have hclean := hchecks.refuses _ hinternal
  simp [internalServerError] at hclean

end ECN
