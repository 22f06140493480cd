import MessageLoop.Runtime.Survey
import Mathlib.Algebra.GroupWithZero.Nat
import Mathlib.Data.Nat.Log

/-!
The result that the initiator of a survey gets (`buildClientSurveyResult` of
`internal/runtime/node.go`, `runSurveyWorker` of `internal/session/client.go`).

The builder keeps the encoded result below a cap of its own, and `enqueueBytes` of
`internal/session/session.go` refuses a frame above `MaxMessageSize`. Sizes are those of the
protobuf encoding, where all field numbers are below 16; texts are valid UTF-8, so that a result
can be encoded.
-/

namespace MessageLoop.Survey

open List

def maxSurveyAnswerBytes : Nat := 4096

def maxSurveyResultBytes : Nat := 256 * 1024

structure Error where
  code : String
  type : String
  message : String
  deriving DecidableEq, Repr

/-- `userID` is the one entry of the metadata. -/
structure SurveyAnswer where
  sessionID : String
  payload : Option (List UInt8)
  userID : Option String
  error : Option Error
  deriving DecidableEq, Repr

structure ClientSurveyResult where
  requestID : String
  channel : String
  answers : List SurveyAnswer
  deriving DecidableEq, Repr

section Sizes

def sizeVarint (n : Nat) : Nat :=
  Nat.log 128 n + 1

/-- A field that is present: tag, length and content. -/
def sizeField (n : Nat) : Nat :=
  1 + sizeVarint n + n

def sizeText (s : String) : Nat :=
  if s = "" then 0 else sizeField s.utf8ByteSize

def Error.size (e : Error) : Nat :=
  sizeText e.code + sizeText e.type + sizeText e.message

def SurveyAnswer.size (a : SurveyAnswer) : Nat :=
  sizeText a.sessionID + a.payload.elim 0 (fun p => sizeField (sizeField p.length)) +
    a.userID.elim 0
      (fun u => sizeField (sizeField (sizeText "user_id" + sizeField u.utf8ByteSize))) +
    a.error.elim 0 (fun e => sizeField e.size)

def headerSize (requestID channel : String) : Nat :=
  sizeText requestID + sizeText channel

def encodedSurveyResultSize (r : ClientSurveyResult) : Nat :=
  headerSize r.requestID r.channel + (r.answers.map fun a => sizeField a.size).sum

/-- The `OutboundMessage` with an envelope of `n` bytes. -/
def frameSize (id : String) (time : UInt64) (n : Nat) : Nat :=
  sizeText id + (if time = 0 then 0 else 1 + sizeVarint time.toNat) + sizeField n

end Sizes

section Builder

def surveyTooLargeError (message : String) : Error :=
  ⟨"SURVEY_ANSWER_TOO_LARGE", "survey_error", message⟩

/-- `userIDs` are the users of the sessions in the hub. -/
def surveyAnswerFor (userIDs : String → Option String) (result : SurveyResult) : SurveyAnswer :=
  match result.error with
  | some message =>
    ⟨result.sessionID, none, none, some ⟨"SURVEY_FAILED", "survey_error", message⟩⟩
  | none =>
    if maxSurveyAnswerBytes < result.payload.length then
      ⟨result.sessionID, none, none, some (surveyTooLargeError "answer exceeds size limit")⟩
    else
      ⟨result.sessionID, if result.payload = [] then none else some result.payload,
        (userIDs result.sessionID).filter (· ≠ ""), none⟩

def SurveyAnswer.strip (a : SurveyAnswer) : SurveyAnswer :=
  { a with
    payload := none
    error := a.error.getD (surveyTooLargeError "survey result exceeds size limit") }

def ClientSurveyResult.append (out : ClientSurveyResult) (a : SurveyAnswer) : ClientSurveyResult :=
  { out with answers := out.answers ++ [a] }

/-- One round of the loop: an answer that does not fit loses its payload, or is dropped. -/
def addAnswer (userIDs : String → Option String) (out : ClientSurveyResult)
    (result : SurveyResult) : ClientSurveyResult :=
  let answer := surveyAnswerFor userIDs result
  if encodedSurveyResultSize (out.append answer) ≤ maxSurveyResultBytes then out.append answer
  else if encodedSurveyResultSize (out.append answer.strip) ≤ maxSurveyResultBytes then
    out.append answer.strip
  else out

def buildClientSurveyResult (userIDs : String → Option String) (requestID channel : String)
    (results : List SurveyResult) : ClientSurveyResult :=
  results.foldl (addAnswer userIDs) ⟨requestID, channel, []⟩

def maxMessageSize (limit : Int) : Nat :=
  if 0 < limit then limit.toNat else 64 * 1024

/-- The check of `enqueueBytes`. -/
def outboundTooLarge (max frame : Nat) : Bool :=
  0 < max && max < frame

/-- The answers are those of a part of the results, whole or stripped, in their order; the result
keeps the cap if its header does, and the frame is sent. -/
structure Deliverable (userIDs : String → Option String) (requestID channel : String)
    (encode : ClientSurveyResult → Nat) (max : Nat) (results : List SurveyResult) : Prop where
  ordered : List.SublistForall₂
    (fun a r => a = surveyAnswerFor userIDs r ∨ a = (surveyAnswerFor userIDs r).strip)
    (buildClientSurveyResult userIDs requestID channel results).answers results
  capped : headerSize requestID channel ≤ maxSurveyResultBytes →
    encodedSurveyResultSize (buildClientSurveyResult userIDs requestID channel results) ≤
      maxSurveyResultBytes
  sent : outboundTooLarge max
    (encode (buildClientSurveyResult userIDs requestID channel results)) = false

end Builder

section Build
variable (userIDs : String → Option String) (requestID channel : String)
  (results : List SurveyResult)

theorem build_snoc (result : SurveyResult) :
    buildClientSurveyResult userIDs requestID channel (results ++ [result]) =
      addAnswer userIDs (buildClientSurveyResult userIDs requestID channel results) result := by
  simp [buildClientSurveyResult]

theorem build_ordered : List.SublistForall₂
    (fun a r => a = surveyAnswerFor userIDs r ∨ a = (surveyAnswerFor userIDs r).strip)
    (buildClientSurveyResult userIDs requestID channel results).answers results := by
  rw [sublistForall₂_iff]
  induction results using reverseRecOn with
  | nil => exact ⟨[], .nil, List.Sublist.refl _⟩
  | append_singleton results result ih =>
    obtain ⟨kept, hanswers, hkept⟩ := ih
    rw [build_snoc]
    unfold addAnswer
    simp only
    split_ifs
    · exact ⟨kept ++ [result], rel_append hanswers (.cons (.inl rfl) .nil),
        hkept.append (List.Sublist.refl _)⟩
    · exact ⟨kept ++ [result], rel_append hanswers (.cons (.inr rfl) .nil),
        hkept.append (List.Sublist.refl _)⟩
    · exact ⟨kept, hanswers, hkept.trans (sublist_append_left _ _)⟩

theorem size_append (out : ClientSurveyResult) (a : SurveyAnswer) :
    encodedSurveyResultSize (out.append a) = encodedSurveyResultSize out + sizeField a.size := by
  simp [encodedSurveyResultSize, ClientSurveyResult.append, Nat.add_assoc]

theorem size_addAnswer (out : ClientSurveyResult) (result : SurveyResult) :
    let n := encodedSurveyResultSize (addAnswer userIDs out result)
    n = encodedSurveyResultSize out ∨
      encodedSurveyResultSize out ≤ n ∧ n ≤ maxSurveyResultBytes := by
  unfold addAnswer
  simp only
  split_ifs with hwhole hstrip
  · exact .inr ⟨by rw [size_append]; exact Nat.le_add_right _ _, hwhole⟩
  · exact .inr ⟨by rw [size_append]; exact Nat.le_add_right _ _, hstrip⟩
  · exact .inl rfl

def builtSize : Nat :=
  encodedSurveyResultSize (buildClientSurveyResult userIDs requestID channel results)

theorem builtSize_nil : builtSize userIDs requestID channel [] = headerSize requestID channel := by
  simp [builtSize, buildClientSurveyResult, encodedSurveyResultSize]

theorem builtSize_cases :
    let n := builtSize userIDs requestID channel results
    n = headerSize requestID channel ∨
      headerSize requestID channel ≤ n ∧ n ≤ maxSurveyResultBytes := by
  induction results using reverseRecOn with
  | nil => exact .inl (builtSize_nil userIDs requestID channel)
  | append_singleton results result ih =>
    simp only [builtSize, build_snoc] at ih ⊢
    have hstep := size_addAnswer userIDs
      (buildClientSurveyResult userIDs requestID channel results) result
    omega

variable {userIDs results}

theorem builtSize_snoc {result : SurveyResult} {m n : Nat}
    (hn : sizeField (surveyAnswerFor userIDs result).size = n)
    (hm : builtSize userIDs requestID channel results = m) (hfits : m + n ≤ maxSurveyResultBytes) :
    builtSize userIDs requestID channel (results ++ [result]) = m + n := by
  subst hn hm
  rw [builtSize, build_snoc, addAnswer, size_append]
  exact (if_pos hfits).symm ▸ size_append _ _

/-- The sizes of the answers of a result, whole and stripped. -/
def answerSizes (userIDs : String → Option String) (result : SurveyResult) : Nat × Nat :=
  (sizeField (surveyAnswerFor userIDs result).size,
    sizeField (surveyAnswerFor userIDs result).strip.size)

/-- What `n` bytes grow to: by the first of the two sizes that stays within the cap. -/
def grow (n : Nat) (sizes : Nat × Nat) : Nat :=
  if n + sizes.1 ≤ maxSurveyResultBytes then n + sizes.1
  else if n + sizes.2 ≤ maxSurveyResultBytes then n + sizes.2
  else n

theorem builtSize_eq (userIDs : String → Option String) (results : List SurveyResult) :
    builtSize userIDs requestID channel results =
      (results.map (answerSizes userIDs)).foldl grow (headerSize requestID channel) := by
  induction results using reverseRecOn with
  | nil => exact builtSize_nil userIDs requestID channel
  | append_singleton results result ih =>
    rw [map_append, foldl_append, ← ih, builtSize, build_snoc]
    unfold addAnswer
    simp only [size_append, map_cons, map_nil, foldl_cons, foldl_nil, grow, answerSizes, builtSize]
    split_ifs <;> simp only [size_append]

theorem foldl_grow_of_fits {n : Nat} {sizes : List (Nat × Nat)}
    (hfits : n + (sizes.map Prod.fst).sum ≤ maxSurveyResultBytes) :
    sizes.foldl grow n = n + (sizes.map Prod.fst).sum := by
  induction sizes generalizing n with
  | nil => rfl
  | cons first sizes ih =>
    rw [map_cons, sum_cons, ← Nat.add_assoc] at hfits ⊢
    rw [foldl_cons, grow, if_pos (by omega), ih hfits]

end Build

section Frames

theorem add_two_le_sizeField (n : Nat) : n + 2 ≤ sizeField n := by
  unfold sizeField sizeVarint
  omega

variable {userIDs : String → Option String} {requestID channel : String}
  {results : List SurveyResult} {limit : Int} {encode : ClientSurveyResult → Nat}

theorem deliverable_iff :
    Deliverable userIDs requestID channel encode (maxMessageSize limit) results ↔
      encode (buildClientSurveyResult userIDs requestID channel results) ≤
        maxMessageSize limit := by
  have hpos : 0 < maxMessageSize limit := by
    unfold maxMessageSize
    split_ifs <;> omega
  constructor
  · intro h
    simpa [outboundTooLarge, hpos] using h.sent
  · intro h
    refine ⟨build_ordered userIDs requestID channel results, fun hheader => ?_, ?_⟩
    · have hsize := builtSize_cases userIDs requestID channel results
      unfold builtSize at hsize
      omega
    · simpa [outboundTooLarge, hpos] using h

def protobuf (id : String) (time : UInt64) (r : ClientSurveyResult) : Nat :=
  frameSize id time (encodedSurveyResultSize r)

theorem surveyAnswerFor_size {sid : String} {payload : List UInt8} (hne : payload ≠ [])
    (hle : payload.length ≤ maxSurveyAnswerBytes) :
    (surveyAnswerFor (fun _ => none) ⟨sid, payload, none⟩).size =
      sizeText sid + sizeField (sizeField payload.length) := by
  simp [surveyAnswerFor, SurveyAnswer.size, hne, Nat.not_lt.mpr hle]

theorem not_deliverable {p : List UInt8} (hlen : p.length = 3000) (id : String) (time : UInt64) :
    ¬ Deliverable (fun _ => none) "r" "a:b" (protobuf id time) (maxMessageSize 4096)
      [⟨"s1", p, none⟩, ⟨"s2", p, none⟩] := by
  have hsize : ∀ sid, sizeText sid = 4 →
      sizeField (surveyAnswerFor (fun _ => none) ⟨sid, p, none⟩).size = 3013 := by
    intro sid hsid
    have hne : p ≠ [] := ne_nil_of_length_pos (by omega)
    rw [surveyAnswerFor_size hne (by rw [hlen]; decide), hsid, hlen]
    decide
  have hone := builtSize_snoc "r" "a:b" (hsize "s1" (by decide))
    (builtSize_nil (fun _ => none) "r" "a:b") (by decide)
  have htwo := builtSize_snoc "r" "a:b" (hsize "s2" (by decide)) hone (by decide)
  rw [nil_append, singleton_append] at htwo
  rw [deliverable_iff, protobuf, ← builtSize, htwo]
  intro hsent
  have hframe := (add_two_le_sizeField _).trans ((Nat.le_add_left _ _).trans hsent)
  exact absurd hframe (by decide)

end Frames

end MessageLoop.Survey
