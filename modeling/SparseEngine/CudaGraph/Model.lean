import SparseEngine.Lib.Routine
import SparseEngine.Lib.SortedSets

/-!
# The capture plan of decode CUDA graphs

`configs/cuda_graph.py`: which decode batch sizes get a captured graph.  The
setting is a list of sizes or left automatic.  Automatic sizes are dense at
the start and aligned above it, and are thinned to the limit on startup
captures.  A decode batch is padded up to a captured size.

`normalizeCapturePlan` is the part of `normalize_decode_cuda_graph` that
settles the startup limit and, from the capture sizes on, the plan.  The
guards between the two, which reject a method or an option that graphs do not
support and write nothing, are left out.  `round` gets the exact quotient.
-/

namespace CudaGraph

/-- `char.isspace()`. -/
def isSpace (char : Char) : Bool :=
  let code := char.toNat
  (9 ≤ code && code ≤ 13) || (28 ≤ code && code ≤ 32) || (0x2000 ≤ code && code ≤ 0x200a) ||
    [0x85, 0xa0, 0x1680, 0x2028, 0x2029, 0x202f, 0x205f, 0x3000].contains code

/-- `text.strip()`. -/
def strip (text : String) : String :=
  String.ofList ((text.toList.dropWhile isSpace).reverse.dropWhile isSpace).reverse

/-- `int(text)` of ASCII text: a sign, then digits with single underscores
between them. -/
def intOfText (text : String) : Option ℤ :=
  match (strip text).toList with
  | '-' :: digits => (natOfDigits digits).map fun value => -(value : ℤ)
  | '+' :: digits => (natOfDigits digits).map fun value => (value : ℤ)
  | digits => (natOfDigits digits).map fun value => (value : ℤ)
where
  natOfDigits (digits : List Char) : Option ℕ :=
    let groups := digits.splitOn '_'
    if groups.all fun group => !group.isEmpty && group.all Char.isDigit then
      some (groups.flatten.foldl (fun value digit => 10 * value + (digit.toNat - '0'.toNat)) 0)
    else none

/-- `items[index]`. -/
def itemAt (items : List ℤ) (index : ℤ) : Except PyError ℤ :=
  let position := if index < 0 then index + items.length else index
  if position < 0 then .error (.defined "IndexError" "list index out of range" none)
  else
    match items[position.toNat]? with
    | some item => .ok item
    | none => .error (.defined "IndexError" "list index out of range" none)

/-- What `decode_graph_capture_sizes` may be set to. -/
inductive CaptureSetting where
  | unset
  | text (value : String)
  | size (value : ℤ)
  | sizes (values : List ℤ)
  deriving DecidableEq

/-- `value is None or isinstance(value, str) and value.strip().lower() in {"", "auto"}`. -/
def CaptureSetting.isAuto : CaptureSetting → Bool
  | .unset => true
  | .text value => [ "", "auto"].contains (strip value).toLower
  | .size _ => false
  | .sizes _ => false

/-- `_default_decode_cuda_graph_capture_sizes`. -/
def defaultDecodeCudaGraphCaptureSizes (maxBatchSize : ℤ) : Except PyError (List ℤ) :=
  if maxBatchSize ≤ 0 then .error (.valueError s!"max_batch_size must be > 0, got {maxBatchSize}.")
  else
    let denseLimit := min 8 maxBatchSize
    let sizes := intRange 1 (denseLimit + 1) 1
    if maxBatchSize ≤ denseLimit then .ok sizes
    else
      let remainingBucketBudget := 32 - denseLimit
      let span := maxBatchSize - denseLimit
      let stride := max 4 ((span + remainingBucketBudget - 1) / remainingBucketBudget)
      let stride := ((stride + 3) / 4) * 4
      .ok (sizes ++ intRange (denseLimit + stride) maxBatchSize stride ++ [maxBatchSize])

/-- The sizes that `_resolve_positive_sizes` starts from. -/
def settingSizes (setting : CaptureSetting) (name : String) (defaults : Except PyError (List ℤ)) :
    Except PyError (List ℤ) :=
  if setting.isAuto then defaults
  else
    match setting with
    | .unset => defaults
    | .text value =>
        let parts := (value.splitOn ",").filter fun part => !(strip part).isEmpty
        match parts.mapM intOfText with
        | some sizes => .ok sizes
        | none => .error (.valueError
            (s!"{name} must be 'auto' or a comma-separated " ++ s!"integer list, got '{value}'."))
    | .size value => .ok [value]
    | .sizes values => .ok values

/-- `_resolve_positive_sizes`. -/
def resolvePositiveSizes (setting : CaptureSetting) (name : String) (defaults : Except PyError (List ℤ)) :
    Except PyError (List ℤ) := do
  let sizes := sortedSet (← settingSizes setting name defaults)
  if sizes = [] ∨ ∃ size ∈ sizes, size ≤ 0 then
    throw (.valueError s!"{name} must contain positive integers, got {sizes}.")
  return sizes

/-- `_resolve_decode_cuda_graph_capture_sizes`. -/
def resolveDecodeCudaGraphCaptureSizes (setting : CaptureSetting) (maxRealBatchSize : ℤ) :
    Except PyError (List ℤ) := do
  let sizes ← resolvePositiveSizes setting "decode_graph_capture_sizes"
    (defaultDecodeCudaGraphCaptureSizes maxRealBatchSize)
  let largest ← itemAt sizes (-1)
  if largest < maxRealBatchSize then
    throw (.valueError ("decode_graph_capture_sizes must cover max_decoding_seqs: " ++
      s!"max capture size {largest} < max_decoding_seqs " ++ s!"{maxRealBatchSize}."))
  if maxRealBatchSize ∉ sizes then
    throw (.valueError ("decode_graph_capture_sizes must contain max_decoding_seqs as an " ++
      s!"exact batch bucket, got max_decoding_seqs={maxRealBatchSize} " ++ s!"and capture sizes {sizes}."))
  return sizes

/-- `_select_decode_cuda_graph_batch_size`. -/
def selectDecodeCudaGraphBatchSize (realBatchSize : ℤ) (captureSizes : List ℤ) : Except PyError ℤ :=
  if realBatchSize ≤ 0 then
    .error (.valueError s!"decode batch size must be > 0, got {realBatchSize}.")
  else
    let sizes := sortedSet captureSizes
    if sizes = [] ∨ ∃ size ∈ sizes, size ≤ 0 then
      .error (.valueError
        ("decode_graph_capture_sizes must contain positive integers, " ++ s!"got {sizes}."))
    else
      match sizes.find? fun size => realBatchSize ≤ size with
      | some size => .ok size
      | none => .error (.valueError
          ("decode_cuda_graph capture sizes do not cover current decode batch: " ++
            s!"batch_size={realBatchSize}, capture_sizes={sizes}."))

/-- The indices into the tail that `_select_evenly_spaced_sizes` keeps. -/
def spacedIndices (tailLength remaining : ℤ) : List ℤ :=
  if 1 < remaining then
    sortedSet ((intRange 0 remaining 1).map fun index =>
      roundHalfEven ((index * (tailLength - 1) : ℤ) / (remaining - 1 : ℤ)))
  else [tailLength - 1]

/-- `_select_evenly_spaced_sizes`. -/
def selectEvenlySpacedSizes (sizes : List ℤ) (limit : ℤ) : Except PyError (List ℤ) := do
  let candidates := sortedSet sizes
  if limit ≤ 0 then
    throw (.valueError s!"decode graph capture limit must be positive, got {limit}.")
  if candidates.length ≤ limit then return candidates
  let dense := candidates.take (min 8 limit).toNat
  let remaining := limit - dense.length
  if remaining ≤ 0 then
    let last ← itemAt candidates (-1)
    return sortedSet (dense.dropLast ++ [last])
  let tail := candidates.drop dense.length
  let kept ← (spacedIndices tail.length remaining).mapM (itemAt tail)
  return sortedSet (dense ++ kept)

/-- The fields of the configuration that the capture plan reads. -/
structure GraphConfig where
  /-- `config.sparse_method` is not empty. -/
  sparseMethod : Bool
  maxDecodingSeqs : ℤ
  maxModelLen : ℤ
  decodeGraphStartupCaptureLimit : Option ℤ
  decodeGraphCaptureSizes : CaptureSetting

/-- What `normalize_decode_cuda_graph` leaves in the configuration, with the
plan it has built. -/
structure CapturePlan where
  startupCaptureLimit : ℤ
  captureSizes : List ℤ
  startupPlan : List (ℤ × ℤ)

/-- `build_decode_cuda_graph_startup_plan`. -/
def buildDecodeCudaGraphStartupPlan (captureSizes : List ℤ) (limit maxModelLen : ℤ) :
    Except PyError (List (ℤ × ℤ)) :=
  let batches := sortedSet captureSizes
  if limit < batches.length then
    .error (.valueError ("decode CUDA Graph startup capture must cover every batch bucket: " ++
      s!"required={batches.length}, limit={limit}."))
  else .ok (batches.reverse.map fun size => (size, maxModelLen))

namespace GraphConfig

/-- The startup capture limit, with its default. -/
def startupCaptureLimit (config : GraphConfig) : ℤ :=
  config.decodeGraphStartupCaptureLimit.getD (if config.sparseMethod then 48 else 32)

/-- The capture sizes that `normalize_decode_cuda_graph` settles on. -/
def captureSizes (config : GraphConfig) : Except PyError (List ℤ) := do
  let sizes ← resolveDecodeCudaGraphCaptureSizes config.decodeGraphCaptureSizes config.maxDecodingSeqs
  if config.decodeGraphCaptureSizes.isAuto then
    selectEvenlySpacedSizes sizes config.startupCaptureLimit
  else return sizes

/-- `normalize_decode_cuda_graph`, the guards on methods and options apart. -/
def normalizeCapturePlan (config : GraphConfig) : Except PyError CapturePlan := do
  let limit := config.startupCaptureLimit
  if limit ≤ 0 then
    throw (.valueError ("decode_graph_startup_capture_limit must be a positive integer, " ++
      s!"got {limit}."))
  let sizes ← config.captureSizes
  let plan ← buildDecodeCudaGraphStartupPlan sizes limit config.maxModelLen
  return { startupCaptureLimit := limit, captureSizes := sizes, startupPlan := plan }

end GraphConfig

end CudaGraph
