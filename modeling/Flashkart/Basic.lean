import Mathlib

/-!
# Flashkart.Basic

Object ids and errors, as both deploy units use them.

A request names a document by a path string. `isValidObjectId` lets through the 24-digit
hexadecimal strings in either letter case; `castObjectId` is the id a query on `_id` casts such a
string to, and `ObjectId.toString` writes an id in lower case. So one document has many accepted
spellings but one canonical one (`castObjectId_toString`, `castObjectId_lower`).
-/

namespace Flashkart

def hexDigits : List Char := "0123456789abcdefABCDEF".toList

def lowerHexDigits : List Char := "0123456789abcdef".toList

def lower (s : String) : String := String.ofList (s.toList.map Char.toLower)

def isValidObjectId (s : String) : Bool :=
  s.toList.length == 24 && s.toList.all (hexDigits.contains ·)

structure ObjectId where
  hex : String
  wf : hex.toList.length = 24 ∧ ∀ c ∈ hex.toList, c ∈ lowerHexDigits
  deriving DecidableEq

theorem toLower_hex : ∀ c ∈ hexDigits, c.toLower ∈ lowerHexDigits := by
  have h : (hexDigits.all fun c => lowerHexDigits.contains c.toLower) = true := by decide
  simpa only [List.all_eq_true, List.contains_iff_mem] using h

theorem toLower_lowerHex : ∀ c ∈ lowerHexDigits, c.toLower = c := by
  have h : (lowerHexDigits.all fun c => c.toLower == c) = true := by decide
  simpa only [List.all_eq_true, beq_iff_eq] using h

theorem lowerHex_hex : ∀ c ∈ lowerHexDigits, c ∈ hexDigits := by
  have h : (lowerHexDigits.all fun c => hexDigits.contains c) = true := by decide
  simpa only [List.all_eq_true, List.contains_iff_mem] using h

theorem isValidObjectId_iff (s : String) :
    isValidObjectId s = true ↔ s.toList.length = 24 ∧ ∀ c ∈ s.toList, c ∈ hexDigits := by
  simp [isValidObjectId]

theorem lower_wf {s : String} (h : isValidObjectId s = true) :
    (lower s).toList.length = 24 ∧ ∀ c ∈ (lower s).toList, c ∈ lowerHexDigits := by
  obtain ⟨hlen, hhex⟩ := (isValidObjectId_iff s).mp h
  simp only [lower, String.toList_ofList, List.length_map, List.mem_map]
  refine ⟨hlen, ?_⟩
  rintro c ⟨d, hd, rfl⟩
  exact toLower_hex d (hhex d hd)

/-- The id that is written `s`. -/
def ObjectId.ofHex (s : String) (h : (s.toList.length == 24 &&
    s.toList.all fun c => lowerHexDigits.contains c) = true) : ObjectId where
  hex := s
  wf := by simpa only [Bool.and_eq_true, beq_iff_eq, List.all_eq_true, List.contains_iff_mem] using h

/-- The `_id` a query with the string `s` looks for. -/
def castObjectId (s : String) : Option ObjectId :=
  if h : isValidObjectId s = true then some ⟨lower s, lower_wf h⟩ else none

def ObjectId.toString (o : ObjectId) : String := o.hex

theorem castObjectId_isSome (s : String) : (castObjectId s).isSome = isValidObjectId s := by
  unfold castObjectId
  split <;> simp_all

/-- The canonical spelling of the document that `s` denotes is `s` in lower case. -/
theorem castObjectId_lower {s : String} {o : ObjectId} (h : castObjectId s = some o) :
    o.toString = lower s := by
  unfold castObjectId at h
  split at h
  · cases h; rfl
  · cases h

theorem lower_toString (o : ObjectId) : lower o.toString = o.toString := by
  have hmap : o.hex.toList.map Char.toLower = o.hex.toList := by
    conv => rhs; rw [← List.map_id o.hex.toList]
    exact List.map_congr_left fun c hc => toLower_lowerHex c (o.wf.2 c hc)
  simp [lower, ObjectId.toString, hmap]

theorem isValidObjectId_toString (o : ObjectId) : isValidObjectId o.toString = true :=
  (isValidObjectId_iff _).mpr ⟨o.wf.1, fun c hc => lowerHex_hex c (o.wf.2 c hc)⟩

theorem ObjectId.toString_injective {a b : ObjectId} (h : a.toString = b.toString) : a = b := by
  cases a; cases b
  simp only [ObjectId.toString] at h
  subst h; rfl

@[simp] theorem castObjectId_toString (o : ObjectId) : castObjectId o.toString = some o := by
  unfold castObjectId
  rw [dif_pos (isValidObjectId_toString o)]
  exact congrArg some (ObjectId.toString_injective (lower_toString o))

@[simp] theorem ObjectId.toString_inj {a b : ObjectId} : a.toString = b.toString ↔ a = b :=
  ⟨ObjectId.toString_injective, fun h => h ▸ rfl⟩

/-! ## Errors -/

inductive ErrorCode where
  | badRequest
  | unauthenticated
  | forbidden
  | notFound
  | conflict
  | rateLimited
  | soldOut
  | reservationExpired
  | idempotencyReplay
  | internal
  deriving DecidableEq

structure AppError where
  code : ErrorCode
  message : String
  status : Nat
  deriving DecidableEq

def badRequest (msg : String) : AppError := ⟨.badRequest, msg, 400⟩
def unauthenticated (msg : String) : AppError := ⟨.unauthenticated, msg, 401⟩
def forbidden (msg : String) : AppError := ⟨.forbidden, msg, 403⟩
def notFound (msg : String) : AppError := ⟨.notFound, msg, 404⟩
def conflict (msg : String) : AppError := ⟨.conflict, msg, 409⟩
def soldOut (msg : String) : AppError := ⟨.soldOut, msg, 409⟩
def reservationExpired : AppError := ⟨.reservationExpired, "Reservation expired", 410⟩

/-- What code can throw: a domain error, or any other `Error` (a store call that failed, say). -/
inductive Err where
  | app (e : AppError)
  | error (message : String)
  deriving DecidableEq

def Err.message : Err → String
  | .app e => e.message
  | .error m => m

/-- The status and the body an error is answered with. -/
def errorMiddleware : Err → Nat × ErrorCode × String
  | .app e => (e.status, e.code, e.message)
  | .error _ => (500, .internal, "Internal error")

end Flashkart
