import Mathlib.Data.Int.Basic

/-!
Requests as the schedulers see them: the members of `LlmRequest` that the capacity scheduler
and the micro-batch scheduler read, and the two they write, the context chunk size and the
draft tokens.

Positions and chunk sizes are those of the model in use; a request carries the fact that its
context position lies within its prompt.
-/

namespace TrtLlm

/-- `LlmRequestState`. -/
inductive LlmRequestState where
  | kUNKNOWN
  | kENCODER_INIT
  | kDISAGG_CONTEXT_WAIT_SCHEDULER
  | kDISAGG_GENERATION_INIT
  | kDISAGG_GENERATION_TRANS_IN_PROGRESS
  | kCONTEXT_INIT
  | kDISAGG_CONTEXT_INIT_AND_TRANS
  | kDISAGG_GENERATION_TRANS_COMPLETE
  | kGENERATION_IN_PROGRESS
  | kGENERATION_TO_COMPLETE
  | kGENERATION_COMPLETE
  | kDISAGG_CONTEXT_TRANS_IN_PROGRESS
  | kDISAGG_CONTEXT_COMPLETE
  | kDISAGG_GENERATION_WAIT_TOKENS
  | kDISAGG_TRANS_ERROR
deriving DecidableEq, Repr

/-- The value of a state; the states are ordered by it. -/
def LlmRequestState.value : LlmRequestState → ℤ
  | kUNKNOWN => 0
  | kENCODER_INIT => 1
  | kDISAGG_CONTEXT_WAIT_SCHEDULER => 7
  | kDISAGG_GENERATION_INIT => 8
  | kDISAGG_GENERATION_TRANS_IN_PROGRESS => 9
  | kCONTEXT_INIT => 10
  | kDISAGG_CONTEXT_INIT_AND_TRANS => 11
  | kDISAGG_GENERATION_TRANS_COMPLETE => 12
  | kGENERATION_IN_PROGRESS => 13
  | kGENERATION_TO_COMPLETE => 14
  | kGENERATION_COMPLETE => 20
  | kDISAGG_CONTEXT_TRANS_IN_PROGRESS => 21
  | kDISAGG_CONTEXT_COMPLETE => 22
  | kDISAGG_GENERATION_WAIT_TOKENS => 23
  | kDISAGG_TRANS_ERROR => -1

/-- `LlmRequest`. -/
structure LlmRequest where
  mRequestId : ℕ
  mState : LlmRequestState
  mPromptLen : ℕ
  contextCurrentPosition : ℕ
  prepopulatedPromptLen : ℕ
  contextChunkSize : ℕ
  estimatedReusableTokens : ℕ
  /-- `getNumTokens(0)`. -/
  numTokens : ℕ
  numDraftTokens : ℕ
  /-- `getBeamWidthByIter()`. -/
  beamWidth : ℕ
  encoderOutputLen : ℕ
  expectedSnapshotPoints : List ℕ
  loraTaskId : Option ℕ
  hasEncoderUniqueTokens : Bool
  position_le : contextCurrentPosition ≤ mPromptLen
deriving DecidableEq

namespace LlmRequest

variable (req : LlmRequest)

def hasReachedState (state : LlmRequestState) : Bool := state.value ≤ req.mState.value

def isEncoderInitState : Bool := req.mState = .kENCODER_INIT

def isContextInitState : Bool :=
  req.mState = .kCONTEXT_INIT || req.mState = .kDISAGG_CONTEXT_INIT_AND_TRANS

def isGenerationInProgressState : Bool :=
  req.mState = .kGENERATION_IN_PROGRESS || req.mState = .kGENERATION_TO_COMPLETE
    || req.mState = .kDISAGG_GENERATION_TRANS_COMPLETE

def isDisaggGenerationInitState : Bool := req.mState = .kDISAGG_GENERATION_INIT

def isDisaggGenerationTransmissionComplete : Bool :=
  req.mState = .kDISAGG_GENERATION_TRANS_COMPLETE

def isDisaggGenerationTransmissionInProgress : Bool :=
  req.mState = .kDISAGG_GENERATION_TRANS_IN_PROGRESS

/-- `isFirstContextChunk`: nothing but the reused prefix has been processed. -/
def isFirstContextChunk : Bool := req.contextCurrentPosition = req.prepopulatedPromptLen

/-- `getContextRemainingLength`. -/
def contextRemainingLength : ℕ := req.mPromptLen - req.contextCurrentPosition

/-- `isLastContextChunk`: the chunk reaches the end of the prompt. -/
def isLastContextChunk : Bool :=
  req.isDisaggGenerationInitState || req.isDisaggGenerationTransmissionComplete
    || req.contextCurrentPosition + req.contextChunkSize = req.mPromptLen

def hasDraftTokens : Bool := 0 < req.numDraftTokens

/-- A context request of which some chunk has been executed. -/
def isStartedContext : Bool := req.isContextInitState && !req.isFirstContextChunk

/-- A context request of which no chunk has been executed. -/
def isFirstChunkContext : Bool :=
  req.isContextInitState && req.isFirstContextChunk && !req.isDisaggGenerationInitState

end LlmRequest

end TrtLlm
