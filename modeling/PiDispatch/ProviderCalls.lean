import PiDispatch.Payload

/-! Provider calls as the runner's meter and its guards see them: the model and the method called, the answer's message
and its usage, and what may be read from a usage. A figure is a finite number, or none. -/
namespace PiDispatch.UsageMeter
open Payload

inductive Method
  | streamSimple
  | stream
  | streamDeferred
  | classify
  | generateImages
  deriving DecidableEq

def RUNTIME_RESULT_METHODS : List Method := [.classify,.generateImages]

/-- A reason the meter stops a job for. -/
inductive Stop
  | tokenBudget
  | costCap
  | modelNotAllowed
  deriving DecidableEq

/-- The copy of a model that a call is judged and dispatched on. `host` is that of its base URL, where that parses. -/
structure Model where
  provider : String
  id : String
  api : String
  host : Option String
  cost : Value
  compat : Value
  unreadable : Bool

structure Pinned where
  api : String
  cost : Value
  compat : Value

/-- Whether the call's model carries the pinned entry's api, cost and compat. -/
def pricedAsPinned (model : Model) (pinned : Option Pinned) : Bool :=
  match pinned with
  | none => false
  | some pinned =>
    model.api = pinned.api && samePayloadValue model.cost pinned.cost 0 && samePayloadValue model.compat pinned.compat 0

def COMPLETIONS_CATALOG_HOSTS : List String :=
  ["api.ant-ling.com","api.cerebras.ai","api.cloudflare.com","api.deepseek.com","api.fireworks.ai","api.groq.com",
    "api.individual.githubcopilot.com","api.kimi.com","api.moonshot.ai","api.moonshot.cn","api.together.ai",
    "api.xiaomimimo.com","api.z.ai","gateway.ai.cloudflare.com","inference.baseten.co","integrate.api.nvidia.com",
    "open.bigmodel.cn","opencode.ai","openrouter.ai","router.huggingface.co","token-plan-ams.xiaomimimo.com",
    "token-plan-cn.xiaomimimo.com","token-plan-sgp.xiaomimimo.com","token-plan.ap-southeast-1.maas.aliyuncs.com",
    "token-plan.cn-beijing.maas.aliyuncs.com"]

def COMPLETIONS_EXTRA_HOSTS : List String := ["api.openai.com"]

def completionsOwnServer (model : Model) : Bool :=
  model.api = "openai-completions" && match model.host with
    | some host => host ∉ COMPLETIONS_CATALOG_HOSTS && host ∉ COMPLETIONS_EXTRA_HOSTS
    | none => true

structure UsageCost where
  input : Option Rat
  output : Option Rat
  cacheRead : Option Rat
  cacheWrite : Option Rat
  total : Option Rat
  totalFromProvider : Bool

structure Usage where
  input : Option Rat
  output : Option Rat
  cacheRead : Option Rat
  cacheWrite : Option Rat
  cacheWrite1h : Option Rat
  reasoning : Option Rat
  totalTokens : Option Rat
  cost : Option UsageCost

inductive Block
  | text (text : String)
  | thinking (thinking : String)
  | toolCall
  | other

/-- A settled answer: its content blocks and the number of its images, where it has them. -/
structure Message where
  usage : Option Usage
  stopReason : String
  content : Option (List Block)
  output : Option Nat

def finite (value : Option Rat) : Rat :=
  match value with
  | some value => if 0 < value then value else 0
  | none => 0

def Usage.price (usage : Option Usage) : Option Rat := usage.bind fun usage => usage.cost.bind UsageCost.total

def Message.failed (message : Message) : Bool := message.stopReason = "error" || message.stopReason = "aborted"

/-- Whether a settled call had started answering. -/
def started (message : Message) : Bool :=
  (match message.content with
    | some blocks => !blocks.isEmpty
    | none => false) ||
  (match message.output with
    | some length => 0 < length
    | none => false)

def Block.answers : Block → Bool
  | .text said => said ≠ ""
  | .thinking said => said ≠ ""
  | .toolCall => true
  | .other => false

def answerContent (message : Message) : Bool :=
  match message.content with
  | some blocks => blocks.any Block.answers
  | none => false

/-- Whether a settled answer carries broken usage. -/
def unreportedUsage (message : Message) (api : String) : Bool :=
  match message.usage with
  | none => false
  | some usage =>
    if (Usage.price (some usage)).isNone = true then false
    else if message.failed = true then started message
    else if finite usage.input + finite usage.cacheRead + finite usage.cacheWrite = 0 then true
    else if answerContent message = false then false
    else finite usage.output = 0 || (api = "anthropic-messages" && finite usage.output ≤ 1)

end PiDispatch.UsageMeter
