import PiDispatch.CostGuard

/-! The most that one provider call can cost, from its model's tables, its context and its options, before it is made
(`callCostBound`). A bound of none is infinite. -/
namespace PiDispatch.UsageMeter
open Payload

def PRICED_APIS : List String :=
  ["anthropic-messages","azure-openai-responses","bedrock-converse-stream","cloudflare-workers-ai-system-one",
    "google-generative-ai","google-vertex","mistral-conversations","openai-codex-responses","openai-completions",
    "openai-decisions","openai-responses","typesafe-system-one"]

def BOUND_OVERHEAD_TOKENS : Nat := 8192

def SERVICE_TIER_APIS : List String := ["openai-responses","openai-codex-responses"]

def MIN_OUTPUT_APIS : List String := ["openai-responses","azure-openai-responses"]

def MIN_OUTPUT_TOKENS : Rat := 16

def MAX_TOKENS_UNSENT_APIS : List String :=
  ["openai-codex-responses","cloudflare-workers-ai-system-one","openai-decisions","typesafe-system-one"]

def SAMPLING_OVERRIDE_APIS : List String := ["openai-completions","openai-responses","azure-openai-responses"]

def SAMPLING_OUTPUT_KEYS : List String := ["max_tokens","max_completion_tokens","max_output_tokens"]

def SAMPLING_SAFE_KEYS : List String :=
  ["temperature","top_p","top_k","seed","stop","presence_penalty","frequency_penalty"] ++ SAMPLING_OUTPUT_KEYS ++ ["n"]

/-- A model with what a bound reads of it besides its cost and compat. -/
structure CallModel extends Model where
  baseUrl : Value
  maxTokens : Value
  samplingParams : Value
  samplingParamsByThinkingLevel : Value
  inputLimits : Value

def truthy : Value → Bool
  | .undefined | .null => false
  | .bool value => value
  | .number (.finite value) => value ≠ 0
  | .number .negativeZero | .number .nan => false
  | .number (.infinite _) => true
  | .string text => text ≠ ""
  | _ => true

def isText (value : Value) (text : String) : Bool :=
  match value with
  | .string own => own = text
  | _ => false

section Tables

/-- A table's rates, in dollars a million tokens: in micro-dollars a token. -/
structure Rates where
  input : Rat
  output : Rat
  cacheRead : Rat
  cacheWrite : Rat

structure Tier extends Rates where
  inputTokensAbove : Rat

structure Table extends Rates where
  tiers : List Tier

def rate (value : Value) : Option Rat := (figure value).filter fun value => 0 ≤ value

def ratesOf (table : Value) : Option Rates := do
  let input ← rate (table.get "input")
  let output ← rate (table.get "output")
  let cacheRead ← rate (table.get "cacheRead")
  let cacheWrite ← rate (table.get "cacheWrite")
  pure ⟨input,output,cacheRead,cacheWrite⟩

def tierOf (tier : Value) : Option Tier := do
  let rates ← ratesOf tier
  let above ← rate (tier.get "inputTokensAbove")
  pure ⟨rates,above⟩

def tableOf (table : Value) : Option Table := do
  let rates ← ratesOf table
  match table.get "tiers" with
  | .undefined | .null => pure ⟨rates,[]⟩
  | .array _ tiers => (tiers.mapM tierOf).map fun tiers => ⟨rates,tiers⟩
  | _ => none

/-- Every cost table that could price the call: the model's own, then each allowed fallback's. -/
def baseTables (model : Model) : List Value :=
  model.cost :: match model.compat.get "allowedFallbackModels" with
    | .array _ fallbacks => fallbacks.map fun fallback => fallback.get "cost"
    | _ => []

/-- The tables, where each can be used for a bound. -/
def priceTables (model : Model) : Option (List Table) := (baseTables model).mapM tableOf

def Rates.isZero (rates : Rates) : Bool :=
  rates.input = 0 && rates.output = 0 && rates.cacheRead = 0 && rates.cacheWrite = 0

def Table.isZero (table : Table) : Bool := table.toRates.isZero && table.tiers.all fun tier => tier.toRates.isZero

def longContextTier (rates : Rates) : Rates := ⟨2 * rates.input,3 / 2 * rates.output,2 * rates.cacheRead,2 * rates.cacheWrite⟩

end Tables

section Bytes
variable (digits : Rat → Nat)

/-- The bytes that a character takes in a JSON string. -/
def escapedBytes (letter : Char) : Nat :=
  if letter ∈ ['"','\\','\x08','\x0c','\n','\r','\t'] then 2 else if letter.toNat < 32 then 6 else letter.utf8Size

def quotedBytes (text : String) : Nat := 2 + (text.toList.map escapedBytes).sum

mutual

/-- The bytes of the JSON text of a clone; `digits` is what a number takes. -/
def writtenBytes : Value → Nat
  | .undefined => 0
  | .null => 4
  | .bool value => if value then 4 else 5
  | .number (.finite value) => digits value
  | .number _ => 4
  | .string text => quotedBytes text
  | .view _ _ _ _ | .reference _ _ _ => 0
  | .array _ items => 2 + writtenItems items + (items.length - 1)
  | .object _ members => 2 + writtenMembers members + (members.length - 1)

def writtenItems : List Value → Nat
  | [] => 0
  | item :: items => writtenBytes item + writtenItems items

def writtenMembers : List (String × Value) → Nat
  | [] => 0
  | member :: members => writtenMember member + writtenMembers members

def writtenMember : String × Value → Nat
  | (key,value) => quotedBytes key + 1 + writtenBytes value

end

/-- The bytes of `JSON.stringify`: none where it throws, and nothing where it has no text. -/
def jsonBytes (value : Value) : Option Nat := (cloned value).map (writtenBytes digits)

end Bytes

section Images

def IMAGE_RESIZE_MAX : Rat := 2000

def imageTokenCeiling (api : String) : Nat :=
  if api ∈ ["openai-completions","openai-responses","azure-openai-responses","openai-codex-responses","openai-decisions"] then 48169
  else if api = "mistral-conversations" then 15750
  else 5334

def hasInfix (needle : String) (text : List Char) : Bool := text.tails.any fun tail => needle.toList.isPrefixOf tail

/-- An o-series id, at the start of the id or after one of its separators. -/
def isSeries : List Char → Bool
  | 'o' :: digit :: _ => digit.isDigit
  | _ => false

def openaiFamily (id : List Char) : Bool :=
  hasInfix "gpt-" id || isSeries id || id.tails.any fun tail =>
    match tail with
    | separator :: rest => separator ∈ ['/',':','.'] && isSeries rest
    | [] => false

def mistralFamily (id : List Char) : Bool :=
  ["pixtral","mistral","ministral","magistral","devstral","codestral"].any fun name => hasInfix name id

def familyImageCeiling (id : String) : Nat :=
  let id := id.toList.map Char.toLower
  if openaiFamily id then 48169 else if mistralFamily id then 15750 else 0

def resizeSide (side : Value) : Rat :=
  match figure side with
  | some side => if 0 < side then max side IMAGE_RESIZE_MAX else IMAGE_RESIZE_MAX
  | none => IMAGE_RESIZE_MAX

def imageCeiling (model : CallModel) : Nat :=
  let resize := (model.inputLimits.get "images").get "resize"
  let perApi := max (imageTokenCeiling model.api) (familyImageCeiling model.id)
  ⌈(perApi : Rat) * resizeSide (resize.get "maxWidth") * resizeSide (resize.get "maxHeight") /
    (IMAGE_RESIZE_MAX * IMAGE_RESIZE_MAX)⌉.toNat

/-- Whether a value is an image block; none where the look at its media type throws. -/
def isImage (value : Value) : Option Bool :=
  if isText (value.get "type") "image" || isText (value.get "type") "image_url" || isText (value.get "type") "input_image" ||
      truthy ((value.get "image").get "source") then some true
  else
    match (value.get "inlineData").get "mimeType" with
    | .undefined | .null => some false
    | .string text => some ("image/".toList.isPrefixOf text.toList)
    | _ => none

variable (digits : Rat → Nat) (ceiling : Nat)

mutual

/-- What the images of a context cost beyond their own bytes. -/
def imageExtra : Value → Option Nat
  | .array _ items => imageItems items
  | .object made members =>
    match isImage (.object made members) with
    | none => none
    | some true => (jsonBytes digits (.object made members)).map fun bytes => ceiling - bytes
    | some false => imageMembers members
  | _ => some 0

def imageItems : List Value → Option Nat
  | [] => some 0
  | item :: items => match imageExtra item,imageItems items with
    | some extra,some rest => some (extra + rest)
    | _,_ => none

def imageMembers : List (String × Value) → Option Nat
  | [] => some 0
  | member :: members => match imageMember member,imageMembers members with
    | some extra,some rest => some (extra + rest)
    | _,_ => none

def imageMember : String × Value → Option Nat
  | (_,value) => imageExtra value

end

def imageAllowance (model : CallModel) (context : Value) : Option Nat := imageExtra digits (imageCeiling model) context

end Images

section Outputs

/-- Whether the request carries the caller's `maxTokens` as its output cap. -/
def sendsMaxTokens (model : CallModel) (options : Value) : Bool :=
  if model.api ∈ MAX_TOKENS_UNSENT_APIS then false
  else if model.api = "openai-responses" then
    if model.compat.get "supportsMaxOutputTokens" matches .bool false then false
    else
      let ownKey := match options.get "apiKey" with
        | .string key => "sk-".toList.isPrefixOf key.toList
        | _ => false
      !(model.provider = "openai" && isText model.baseUrl "https://api.openai.com/v1" && !ownKey)
  else true

/-- A layer of sampling parameters: none where it cannot be read. -/
def samplingLayer (layer : Value) : Option (List Members) :=
  match layer with
  | .undefined | .null => some []
  | .object _ members => some [members]
  | _ => none

def samplingLayers (model : CallModel) (options : Value) : Option (List Members) := do
  let own ← samplingLayer model.samplingParams
  let asked ← samplingLayer (options.get "samplingParams")
  match model.samplingParamsByThinkingLevel with
  | .undefined | .null => pure (own ++ asked)
  | .object _ levels => (levels.mapM fun level => samplingLayer level.2).map fun levels => own ++ asked ++ levels.flatten
  | _ => none

def samplingOverridesRequest (model : CallModel) (options : Value) : Bool :=
  model.api ∈ SAMPLING_OVERRIDE_APIS && match samplingLayers model options with
    | none => true
    | some layers => layers.any fun layer => layer.any fun member => member.1 ∉ SAMPLING_SAFE_KEYS

def positive (value : Value) : Option Rat := (figure value).filter fun value => 0 < value

/-- The bound and the choices, once a layer has had its say. -/
def samplingStep (state : Rat × Rat) (layer : Members) : Option (Rat × Rat) := do
  let bound ← SAMPLING_OUTPUT_KEYS.foldlM (fun bound key =>
    match Members.get? layer key with
    | none => some bound
    | some value => (positive value).map (max bound)) state.1
  match Members.get? layer "n" with
  | none => pure (bound,state.2)
  | some value => ((positive value).filter fun value => value.den = 1).map fun choices => (bound,max state.2 choices)

def samplingOutput (model : CallModel) (options : Value) (output : Rat) : Option Rat :=
  if model.api ∉ SAMPLING_OVERRIDE_APIS then some output
  else if samplingOverridesRequest model options then none
  else do
    let layers ← samplingLayers model options
    let state ← layers.foldlM samplingStep (output,1)
    pure (state.1 * state.2)

/-- What the caller asks for, if anything: none where it is no finite number. -/
def askedTokens (raw : Value) : Option (Option Rat) :=
  match raw with
  | .undefined | .null => some none
  | raw => (figure raw).map some

/-- The cap that bounds the answer, before reasoning and sampling. -/
def sentOutput (method : Method) (model : CallModel) (options : Value) (present : Option Rat) : Option Rat :=
  let asked := present.filter fun present => 0 < present
  let modelMax := positive model.maxTokens
  if completionsOwnServer model.toModel then
    if isText (model.compat.get "maxTokensField") "max_tokens" then
      if present.isSome then asked else if method = .stream then none else modelMax
    else none
  else if sendsMaxTokens model options then asked.or modelMax
  else modelMax

def reasonedOutput (model : CallModel) (options : Value) (output : Option Rat) : Option Rat :=
  if truthy (options.get "reasoning") then
    match positive model.maxTokens,output with
    | some most,some output => some (max output most)
    | _,_ => none
  else output

def outputBound (method : Method) (model : CallModel) (options : Value) (tables : List Table) : Option Rat :=
  if method = .classify then
    if tables.any fun table => 0 < table.output || table.tiers.any fun tier => 0 < tier.output then none else some 0
  else do
    let present ← askedTokens (options.get "maxTokens")
    if (present.any fun present => present < 0) ∧ model.api = "openai-completions" then none
    else
      let output ← reasonedOutput model options (sentOutput method model options present)
      samplingOutput model options (if model.api ∈ MIN_OUTPUT_APIS then max output MIN_OUTPUT_TOKENS else output)

end Outputs

section Bound
variable (digits : Rat → Nat)

def inputBound (model : CallModel) (context : Value) : Option Nat := do
  let bytes ← jsonBytes digits context
  let images ← imageAllowance digits model context
  pure (bytes + BOUND_OVERHEAD_TOKENS + images)

/-- Whether a cache write for an hour can happen. -/
def longWrite (model : Model) (options env : Value) : Bool :=
  let asked := options.get "cacheRetention"
  let given := (options.get "env").get "PI_CACHE_RETENTION"
  let long := if truthy asked then isText asked "long"
    else isText (if truthy given then given else env.get "PI_CACHE_RETENTION") "long"
  model.api ∈ ANTHROPIC_PRICED_APIS && long

def multiplier (model : Model) : Rat :=
  if model.api ∈ SERVICE_TIER_APIS then if model.id = "gpt-5.5" then 5 / 2 else 2 else 1

/-- The rates that could price the call from a table. -/
def candidates (model : Model) (input : Rat) (table : Table) : List Rates :=
  table.toRates :: (table.tiers.filter fun tier => tier.inputTokensAbove < input).map Tier.toRates ++
    if model.api ∈ ANTHROPIC_PRICED_APIS ∧ table.tiers = [] ∧ LONG_CONTEXT_TOKENS < input then [longContextTier table.toRates] else []

def candidateCost (long : Bool) (input output : Rat) (rates : Rates) : Rat :=
  input * max (max (max rates.input rates.cacheRead) rates.cacheWrite) (if long then 2 * rates.input else 0) + output * rates.output

def callCostBound (method : Method) (model : CallModel) (context options env : Value) : Option Nat :=
  if model.api ∉ PRICED_APIS then none
  else do
    let tables ← priceTables model.toModel
    if tables.all Table.isZero then pure 0
    else
      let input ← inputBound digits model context
      let output ← outputBound method model options tables
      let dearest := (tables.flatMap (candidates model.toModel input)).foldl (fun dearest rates =>
        max dearest (candidateCost (longWrite model.toModel options env) input output rates)) 0
      pure ⌈dearest * multiplier model.toModel⌉.toNat

end Bound

end PiDispatch.UsageMeter
