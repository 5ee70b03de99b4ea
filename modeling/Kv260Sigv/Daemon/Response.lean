import Kv260Sigv.Daemon.Accelerator

/-!
# The daemon's answer to a request

`api.rs`: what `success_response` makes of the result of a call.
-/

set_option autoImplicit false

namespace Kv260Sigv

namespace Accelerator

/-- `error_code_name`. -/
def errorCodeName (value : BitVec 8) : String :=
  match value.toNat with
  | 0 => "none"
  | 1 => "message_len"
  | 2 => "job_count"
  | 3 => "job_range"
  | 4 => "job_timeout"
  | other => s!"unknown({other})"

/-- `ParsedSummary`. -/
structure ParsedSummary where
  messageVersion : String
  messageLength : ℕ
  numRequiredSignatures : UInt8

/-- `VerificationSummary`. -/
structure VerificationSummary where
  verifyMode : String
  verified : Bool
  allSignersVerified : Bool
  resultBits : List Bool
  resultMaskHex : String

/-- `HardwareSummary`. -/
structure HardwareSummary where
  batchId : BitVec 32
  acceptedJobCount : BitVec 8
  jobsCompleted : BitVec 32
  jobsDropped : BitVec 32
  error : Bool
  errorCode : String
  lastJobCycles : BitVec 32
  lastBatchCycles : BitVec 32

/-- `VerifySuccessResponse`. -/
structure VerifySuccessResponse where
  ok : Bool
  requestId : String
  parsed : Option ParsedSummary
  verification : VerificationSummary
  hardware : HardwareSummary

/-- `success_response`: the body, sent with status 200. -/
def successResponse (requestId : String) (parsedSummary : Option ParsedSummary) (totalJobs : ℕ)
    (verifyMode : VerifyMode) (result : HardwareBatchResult) : VerifySuccessResponse :=
  let allSignersVerified :=
    result.resultValid && !result.error && result.acceptedJobCount.toNat == totalJobs &&
      result.jobsDropped == 0 && !result.resultBits.isEmpty && result.resultBits.all fun bit => bit
  { ok := true
    requestId := requestId
    parsed := parsedSummary
    verification := {
      verifyMode := verifyMode.asStr
      verified := allSignersVerified
      allSignersVerified := allSignersVerified
      resultBits := result.resultBits
      resultMaskHex := result.resultMaskHex }
    hardware := {
      batchId := result.batchId
      acceptedJobCount := result.acceptedJobCount
      jobsCompleted := result.jobsCompleted
      jobsDropped := result.jobsDropped
      error := result.error
      errorCode := errorCodeName result.errorCode
      lastJobCycles := result.lastJobCycles
      lastBatchCycles := result.lastBatchCycles } }

/-- When the answer says that all signers are verified. -/
theorem successResponse_verified (requestId : String) (parsedSummary : Option ParsedSummary)
    (totalJobs : ℕ) (verifyMode : VerifyMode) (result : HardwareBatchResult) :
    (successResponse requestId parsedSummary totalJobs verifyMode result).verification.verified =
        true ↔
      result.resultValid = true ∧ result.error = false ∧
        result.acceptedJobCount.toNat = totalJobs ∧ result.jobsDropped = 0 ∧
        result.resultBits ≠ [] ∧ ∀ bit ∈ result.resultBits, bit = true := by
  simp [successResponse, and_assoc]

end Accelerator

end Kv260Sigv
