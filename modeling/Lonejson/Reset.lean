import Lonejson.Core

/-!
# Initialising, resetting and cleaning destinations

The routines that bring members of a destination into their empty state, with
their effect on the allocation budget. Each routine comes in the form that charges
the parser; the two places where the parser calls the form that does not charge
are kept apart by name.
-/

namespace Lonejson

variable {σ : Type}

/-! ## Array handles -/

/-- A handle after `memset` and the restoration of a fixed array. -/
def ArrayInfo.cleared (info : ArrayInfo) : ArrayInfo :=
  if info.fixedCapacity then
    { capacity := info.capacity, fixedCapacity := true }
  else {}

/-- The same for object arrays, which also keep the element size of a fixed array. -/
def ArrayInfo.clearedObjects (info : ArrayInfo) : ArrayInfo :=
  if info.fixedCapacity then
    { capacity := info.capacity, elemSize := info.elemSize, fixedCapacity := true }
  else {}

/-- `lonejson__is_exact_fixed_capacity` of the flags. -/
def ArrayInfo.exactFixed (info : ArrayInfo) : Bool := info.fixedCapacity && !info.ownsItems

/-! ## Spooled and JSON values -/

/-- `lonejson__owned_strdup`; the empty string gives `NULL`. -/
def ownedStrdup (src : Option Bytes) : Option Owned :=
  match src with
  | none => none
  | some [] => none
  | some s => some { header := { size := s.length + 1 }, data := s }

/-- `lonejson_spooled_init_with_allocator`. -/
def spooledInit (options : SpoolOptions) : Spooled :=
  { initialized := true, memoryLimit := options.memoryLimit, maxBytes := options.maxBytes,
    ownedTempDir := ownedStrdup options.tempDir }

/-- `lonejson_spooled_reset`: drop the contents, keep the options. -/
def Spooled.reset (s : Spooled) : Spooled :=
  { initialized := true, memoryLimit := s.memoryLimit, maxBytes := s.maxBytes,
    ownedTempDir := s.ownedTempDir }

/-- `lonejson_spooled_cleanup`. -/
def Spooled.cleanup (s : Spooled) : Spooled :=
  { initialized := true, memoryLimit := s.memoryLimit, maxBytes := s.maxBytes }

/-- Raise the budget error that also marks the parser failed. -/
def Core.failBudget (c : Core σ) : Core σ :=
  { (c.setError .overflow "parse allocations exceed configured max bytes").1 with failed := true }

/-- Charge the kept temporary directory again; when the budget forbids it the
parser fails and the spool is cleaned. -/
def spooledAdoptTempDir (env : Env σ) (c : Core σ) (s : Spooled) : Core σ × Spooled :=
  match s.ownedTempDir with
  | none => (c, s)
  | some dir =>
    match allocTryAdopt env c.allocLive dir.header with
    | some (live, header) =>
      ({ c with allocLive := live }, { s with ownedTempDir := some { dir with header } })
    | none => (c.failBudget, s.cleanup)

/-- `lonejson__spooled_reset_parse`. -/
def spooledResetParse (env : Env σ) (c : Core σ) (s : Spooled) : Core σ × Spooled :=
  let c := ownedFreeParse env c (s.memory.map Owned.header)
  let c := ownedFreeParse env c (s.ownedTempDir.map Owned.header)
  spooledAdoptTempDir env c s.reset

/-- `lonejson__reseed_spooled_field_parse`; adoption is skipped without a budget. -/
def reseedSpooledFieldParse (env : Env σ) (c : Core σ) (field : Field) (s : Spooled) :
    Core σ × Spooled :=
  let c := if s.initialized then
      ownedFreeParse env (ownedFreeParse env c (s.memory.map Owned.header))
        (s.ownedTempDir.map Owned.header)
    else c
  let s := spooledInit field.spoolOptions
  if env.options.maxAllocBytes = 0 then (c, s) else spooledAdoptTempDir env c s

/-- `lonejson__default_value_limits`. -/
def defaultValueLimits : ValueLimits :=
  { maxDepth := 64, maxStringBytes := 1024 * 1024, maxNumberBytes := 256,
    maxKeyBytes := 64 * 1024, maxTotalBytes := 0 }

/-- `lonejson__init_json_value_field`. -/
def initJsonValueField (env : Env σ) (field : Field) : JsonValue :=
  let limits := env.runtimeLimits.getD defaultValueLimits
  { initialized := true,
    parseMode := if field.flags.jsonValueDefaultCapture then .capture else .none,
    limits := limits, runtimeLimits := limits, limitsFollowRuntime := true }

/-- `lonejson__json_value_clear_runtime`. -/
def JsonValue.clearRuntime (v : JsonValue) : JsonValue :=
  { v with kind := .null, json := none, path := none }

/-- `lonejson__json_value_clear_runtime_parse`. -/
def jsonValueClearRuntimeParse (env : Env σ) (c : Core σ) (v : JsonValue) : Core σ × JsonValue :=
  (ownedFreeParse env (ownedFreeParse env c (v.json.map Owned.header))
    (v.path.map Owned.header), v.clearRuntime)

/-- `lonejson__reseed_json_value_field_parse`. -/
def reseedJsonValueFieldParse (env : Env σ) (c : Core σ) (field : Field) (v : JsonValue) :
    Core σ × JsonValue :=
  if !v.initialized then (c, initJsonValueField env field)
  else
    let r := jsonValueClearRuntimeParse env c v
    let v := r.2
    let limits := match env.runtimeLimits with
      | some l => if v.limitsFollowRuntime then l else v.limits
      | none => v.limits
    let runtimeLimits := env.runtimeLimits.getD v.runtimeLimits
    let parseMode :=
      if field.flags.jsonValueDefaultCapture ∧ v.parseMode = .none then .capture
      else v.parseMode
    (r.1, { v with limits, runtimeLimits, parseMode })

/-! ## Cleaning -/

/-- The state of a stream handle after its cleanup. -/
def StringArrayStream.cleaned (s : StringArrayStream) : StringArrayStream :=
  if s.initialized then { s with active := false } else { initialized := true }

def MappedArrayStream.cleaned (s : MappedArrayStream) : MappedArrayStream :=
  if s.initialized then { s with active := false } else { initialized := true }

mutual

/-- `memset(ptr, 0, size)`. -/
def Value.zeroed : Value → Value
  | .string _ => .string none
  | .fixedString buffer => .fixedString (List.replicate buffer.length 0)
  | .spooled _ => .spooled {}
  | .source _ => .source {}
  | .jsonValue _ => .jsonValue {}
  | .i64 _ => .i64 0
  | .u64 _ => .u64 0
  | .f64 _ => .f64 0
  | .bool _ => .bool false
  | .object r => .object (zeroedMembers r)
  | .stringArray _ _ => .stringArray [] {}
  | .i64Array _ _ => .i64Array [] {}
  | .u64Array _ _ => .u64Array [] {}
  | .f64Array _ _ => .f64Array [] {}
  | .boolArray _ _ => .boolArray [] {}
  | .objectArray _ _ => .objectArray [] {}
  | .stringArrayStream _ => .stringArrayStream {}
  | .mappedArrayStream _ itemDst => .mappedArrayStream {} itemDst

def zeroedMembers : List (Value × Bool) → List (Value × Bool)
  | [] => []
  | (v, _) :: rest => (v.zeroed, false) :: zeroedMembers rest

end

mutual

/-- `lonejson__cleanup_value_parse`. -/
def cleanupValueParse (env : Env σ) (c : Core σ) : Value → Core σ × Value
  | .string ptr => (ownedFreeParse env c (ptr.map Owned.header), .string none)
  | .fixedString buffer => (c, .fixedString (buffer.set 0 0))
  | .spooled s => let r := spooledResetParse env c s; (r.1, .spooled r.2)
  | .source s => (ownedFreeParse env c (s.path.map Owned.header), .source {})
  | .jsonValue v => let r := jsonValueClearRuntimeParse env c v; (r.1, .jsonValue r.2)
  | .object r => ((cleanupMembersParse env c r).1, .object (zeroedMembers r))
  | .stringArray items info =>
    (c.releaseAll env (items.flatMap ownedHeaders ++ info.headers), .stringArray [] info.cleared)
  | .i64Array _ info =>
    (c.releaseAll env info.headers, .i64Array [] info.cleared)
  | .u64Array _ info =>
    (c.releaseAll env info.headers, .u64Array [] info.cleared)
  | .f64Array _ info =>
    (c.releaseAll env info.headers, .f64Array [] info.cleared)
  | .boolArray _ info =>
    (c.releaseAll env info.headers, .boolArray [] info.cleared)
  | .objectArray items info =>
    ((cleanupItemsParse env c items).releaseAll env info.headers,
      .objectArray [] info.clearedObjects)
  | .stringArrayStream s => (c, .stringArrayStream s.cleaned)
  | .mappedArrayStream s itemDst => (c, .mappedArrayStream s.cleaned itemDst)
  | v => (c, v)

/-- `lonejson__cleanup_map_parse`. -/
def cleanupMembersParse (env : Env σ) (c : Core σ) :
    List (Value × Bool) → Core σ × List (Value × Bool)
  | [] => (c, [])
  | (v, _) :: rest =>
    let r := cleanupValueParse env c v
    let s := cleanupMembersParse env r.1 rest
    (s.1, (r.2, false) :: s.2)

/-- The elements of an object array, which is emptied next. -/
def cleanupItemsParse (env : Env σ) (c : Core σ) : List (List (Value × Bool)) → Core σ
  | [] => c
  | r :: rest => cleanupItemsParse env (cleanupMembersParse env c r).1 rest

end

/-! ## Analysis of maps -/

/-- `lonejson__map_analysis`. -/
structure MapAnalysis where
  valid : Bool
  mayAllocate : Bool
  deriving DecidableEq, Repr

/-- The check of one field in `lonejson__analyze_map_with_stack`; the placement of
the member in the struct is not modelled. -/
def fieldLayoutValid (field : Field) : Bool :=
  let scalar := field.kind == .i64 || field.kind == .u64 || field.kind == .f64 ||
    field.kind == .bool
  let sized := match field.kind with
    | .string => field.storage == .dynamic || field.fixedCapacity != 0
    | .object => field.submap.isSome
    | _ => true
  sized && (!field.flags.hasPresence || scalar) &&
    (!field.flags.acceptNull || (field.flags.hasPresence && scalar)) &&
    !(field.flags.required && (field.flags.omitNull || field.flags.omitEmpty ||
      field.flags.hasPresence || field.flags.acceptNull))

/-- `lonejson__analyze_map_with_stack`. The recursion over submaps ends because a
map on the stack is not entered again; `fuel` bounds the number of distinct maps. -/
def analyzeMapWithStack (maps : MapTable) : ℕ → List MapId → MapId → MapAnalysis
  | 0, _, _ => ⟨true, true⟩
  | fuel + 1, stack, id =>
    let sub (m : MapId) : MapAnalysis :=
      if m ∈ id :: stack then ⟨true, true⟩ else analyzeMapWithStack maps fuel (id :: stack) m
    (maps id).fields.foldl
      (fun a field =>
        if !a.valid then a
        else if !fieldLayoutValid field then { a with valid := false }
        else match field.kind with
          | .string => { a with mayAllocate := a.mayAllocate || field.storage == .dynamic }
          | .stringStream | .base64Stream | .stringSource | .base64Source | .jsonValue
          | .stringArray => { a with mayAllocate := true }
          | .object =>
            match field.submap with
            | none => a
            | some m => ⟨(sub m).valid, a.mayAllocate || (sub m).mayAllocate⟩
          | .objectArray =>
            match field.submap with
            | none => { a with mayAllocate := a.mayAllocate || field.storage == .dynamic }
            | some m =>
              ⟨(sub m).valid,
                a.mayAllocate || field.storage == .dynamic || (sub m).mayAllocate⟩
          | .i64Array | .u64Array | .f64Array | .boolArray =>
            { a with mayAllocate := a.mayAllocate || field.storage == .dynamic }
          | _ => a)
      ⟨true, false⟩

/-- `lonejson__analyze_map`. -/
def analyzeMap (env : Env σ) (id : MapId) : MapAnalysis :=
  analyzeMapWithStack env.maps env.structDepth [] id

/-- `lonejson__map_may_allocate`. -/
def mapMayAllocate (env : Env σ) : Option MapId → Bool
  | none => false
  | some id => (analyzeMap env id).mayAllocate

/-- `lonejson__map_layout_is_valid`. -/
def mapLayoutIsValid (env : Env σ) (id : MapId) : Bool := (analyzeMap env id).valid

/-! ## Resetting arrays that are present -/

/-- `lonejson__reset_present_array_field`: the items are freed and no parser is
told. -/
def resetPresentArrayField (env : Env σ) (field : Field) : Value → Value
  | .stringArray _ info => .stringArray [] info.cleared
  | .i64Array _ info => .i64Array [] (if info.exactFixed then info else info.cleared)
  | .u64Array _ info => .u64Array [] (if info.exactFixed then info else info.cleared)
  | .f64Array _ info => .f64Array [] (if info.exactFixed then info else info.cleared)
  | .boolArray _ info => .boolArray [] (if info.exactFixed then info else info.cleared)
  | .objectArray _ info =>
    .objectArray []
      (if info.exactFixed && !mapMayAllocate env field.submap then info else info.clearedObjects)
  | v => v

/-- Whether `lonejson__reset_present_array_field` only sets the count to zero. -/
def resetKeepsStorage (env : Env σ) (field : Field) : Value → Bool
  | .i64Array _ info | .u64Array _ info | .f64Array _ info | .boolArray _ info => info.exactFixed
  | .objectArray _ info => info.exactFixed && !mapMayAllocate env field.submap
  | _ => false

/-- `lonejson__reset_present_array_field_parse`. -/
def resetPresentArrayFieldParse (env : Env σ) (c : Core σ) (field : Field) (v : Value) :
    Core σ × Value :=
  if resetKeepsStorage env field v then (c, resetPresentArrayField env field v)
  else cleanupValueParse env c v

/-! ## Resetting and initialising whole maps -/

mutual

/-- One field of `lonejson__reset_map_parse`. -/
def resetMemberParse (env : Env σ) (c : Core σ) (field : Field) :
    Value → Bool → Core σ × Value × Bool
  | .jsonValue v, present =>
    let r := reseedJsonValueFieldParse env c field v; (r.1, .jsonValue r.2, present)
  | .spooled s, present =>
    let r := reseedSpooledFieldParse env c field s; (r.1, .spooled r.2, present)
  | .i64 _, present => (c, .i64 0, present && !field.flags.hasPresence)
  | .u64 _, present => (c, .u64 0, present && !field.flags.hasPresence)
  | .f64 _, present => (c, .f64 0, present && !field.flags.hasPresence)
  | .bool _, present => (c, .bool false, present && !field.flags.hasPresence)
  | .object r, present =>
    match field.submap with
    | some m => let s := resetMembersParse env c (env.maps m).fields r; (s.1, .object s.2, present)
    | none => (c, .object r, present)
  | .stringArray items info, present =>
    let r := resetPresentArrayFieldParse env c field (.stringArray items info)
    (r.1, r.2, present)
  | .i64Array items info, present =>
    let r := resetPresentArrayFieldParse env c field (.i64Array items info); (r.1, r.2, present)
  | .u64Array items info, present =>
    let r := resetPresentArrayFieldParse env c field (.u64Array items info); (r.1, r.2, present)
  | .f64Array items info, present =>
    let r := resetPresentArrayFieldParse env c field (.f64Array items info); (r.1, r.2, present)
  | .boolArray items info, present =>
    let r := resetPresentArrayFieldParse env c field (.boolArray items info); (r.1, r.2, present)
  | .objectArray items info, present =>
    let r := resetPresentArrayFieldParse env c field (.objectArray items info)
    (r.1, r.2, present)
  | .string ptr, present => let r := cleanupValueParse env c (.string ptr); (r.1, r.2, present)
  | .fixedString b, present => (c, .fixedString (b.set 0 0), present)
  | .source s, present => let r := cleanupValueParse env c (.source s); (r.1, r.2, present)
  | .stringArrayStream s, present => (c, .stringArrayStream s.cleaned, present)
  | .mappedArrayStream s d, present => (c, .mappedArrayStream s.cleaned d, present)

/-- `lonejson__reset_map_parse`. -/
def resetMembersParse (env : Env σ) (c : Core σ) :
    List Field → List (Value × Bool) → Core σ × List (Value × Bool)
  | field :: fields, (v, present) :: rest =>
    let r := resetMemberParse env c field v present
    let s := resetMembersParse env r.1 fields rest
    (s.1, (r.2.1, r.2.2) :: s.2)
  | _, rest => (c, rest)

end

/-- `lonejson__reset_map_parse` on a record. -/
def resetMapParse (env : Env σ) (c : Core σ) (map : Option MapId) (r : Record) :
    Core σ × Record :=
  match map with
  | none => (c, r)
  | some m => resetMembersParse env c (env.maps m).fields r

/-- `lonejson__init_value` on zeroed memory; `sub` initialises an embedded struct. -/
def initValueWith (env : Env σ) (sub : MapId → Record) (field : Field) : Value :=
  match field.kind with
  | .string =>
    if field.storage = .dynamic then .string none
    else .fixedString (List.replicate field.fixedCapacity 0)
  | .stringStream | .base64Stream => .spooled (spooledInit field.spoolOptions)
  | .stringSource | .base64Source => .source {}
  | .jsonValue => .jsonValue (initJsonValueField env field)
  | .i64 => .i64 0
  | .u64 => .u64 0
  | .f64 => .f64 0
  | .bool => .bool false
  | .object => .object (match field.submap with
    | none => []
    | some m => sub m)
  | .stringArray => .stringArray [] {}
  | .i64Array => .i64Array [] {}
  | .u64Array => .u64Array [] {}
  | .f64Array => .f64Array [] {}
  | .boolArray => .boolArray [] {}
  | .objectArray => .objectArray [] { elemSize := field.elemSize }
  | .stringArrayStream => .stringArrayStream { initialized := true }
  | .mappedArrayStream => .mappedArrayStream { initialized := true } none

/-- `lonejson__init_map_with_allocator` on zeroed memory; `fuel` bounds the chain
of embedded structs. -/
def initMap (env : Env σ) : ℕ → MapId → Record
  | 0, _ => []
  | fuel + 1, id =>
    (env.maps id).fields.map fun field => (initValueWith env (initMap env fuel) field, false)

/-- `lonejson__map_is_flat_zeroable`. -/
def mapIsFlatZeroable (env : Env σ) : Option MapId → Bool
  | none => false
  | some id =>
    (env.maps id).fields.all fun field =>
      match field.kind with
      | .i64 | .u64 | .f64 | .bool => true
      | .string => field.storage == .fixed
      | _ => false

mutual

/-- `lonejson__init_value_parse`: the memory is taken to be uninitialised where the
handle cannot be told from garbage, so an old string or array is forgotten. -/
def initValueParse (env : Env σ) (c : Core σ) (field : Field) : Value → Core σ × Value
  | .string _ => (c, .string none)
  | .fixedString b => (c, .fixedString (b.set 0 0))
  | .spooled s => let r := reseedSpooledFieldParse env c field s; (r.1, .spooled r.2)
  | .source _ => (c, .source {})
  | .jsonValue v => let r := reseedJsonValueFieldParse env c field v; (r.1, .jsonValue r.2)
  | .i64 _ => (c, .i64 0)
  | .u64 _ => (c, .u64 0)
  | .f64 _ => (c, .f64 0)
  | .bool _ => (c, .bool false)
  | .object r =>
    if mapIsFlatZeroable env field.submap then (c, .object (zeroedMembers r))
    else
      match field.submap with
      | none => (c, .object r)
      | some m => let s := initMembersParse env c (env.maps m).fields r; (s.1, .object s.2)
  | .stringArray _ _ => (c, .stringArray [] {})
  | .i64Array _ _ => (c, .i64Array [] {})
  | .u64Array _ _ => (c, .u64Array [] {})
  | .f64Array _ _ => (c, .f64Array [] {})
  | .boolArray _ _ => (c, .boolArray [] {})
  | .objectArray _ _ => (c, .objectArray [] { elemSize := field.elemSize })
  | .stringArrayStream s => (c, .stringArrayStream s.cleaned)
  | .mappedArrayStream s d => (c, .mappedArrayStream s.cleaned d)

/-- `lonejson__init_map_parse`, which stops at the first field that fails. -/
def initMembersParse (env : Env σ) (c : Core σ) :
    List Field → List (Value × Bool) → Core σ × List (Value × Bool)
  | field :: fields, (v, present) :: rest =>
    if c.failed then (c, (v, present) :: rest)
    else
      let r := initValueParse env c field v
      let s := initMembersParse env r.1 fields rest
      (s.1, (r.2, present && !field.flags.hasPresence) :: s.2)
  | _, rest => (c, rest)

end

/-- `lonejson__init_map_parse` on the root destination. -/
def initMapParse (env : Env σ) (c : Core σ) : Core σ :=
  match env.rootMap with
  | none => c
  | some m =>
    let r := initMembersParse env c (env.maps m).fields c.dst
    { r.1 with dst := r.2 }

/-! ## Adopting what a destination already owns -/

/-- `lonejson__parser_adopt_owned_pointer`. -/
def adoptOwnedPointer (env : Env σ) (c : Core σ) (h : AllocHeader) : Core σ × AllocHeader :=
  if c.failed then (c, h)
  else
    match allocTryAdopt env c.allocLive h with
    | some (allocLive, h) => ({ c with allocLive }, h)
    | none => (c.failBudget, h)

/-- The same for a block with its bytes. -/
def adoptOwned (env : Env σ) (c : Core σ) : Option Owned → Core σ × Option Owned
  | none => (c, none)
  | some o => let r := adoptOwnedPointer env c o.header; (r.1, some { o with header := r.2 })

/-- The same for the strings of an array, in order. -/
def adoptOwnedList (env : Env σ) : Core σ → List (Option Owned) → Core σ × List (Option Owned)
  | c, [] => (c, [])
  | c, o :: rest =>
    let r := adoptOwned env c o
    let s := adoptOwnedList env r.1 rest
    (s.1, r.2 :: s.2)

/-- The same for the `items` of an array handle that owns them. -/
def adoptItems (env : Env σ) (c : Core σ) (info : ArrayInfo) : Core σ × ArrayInfo :=
  match info.ownsItems, info.block with
  | true, some h => let r := adoptOwnedPointer env c h; (r.1, { info with block := some r.2 })
  | _, _ => (c, info)

mutual

/-- `lonejson__parser_adopt_existing_value_allocations`. The temporary directory of a
spool is not adopted. -/
def adoptExistingValue (env : Env σ) (c : Core σ) (field : Field) : Value → Core σ × Value
  | .string ptr => let r := adoptOwned env c ptr; (r.1, .string r.2)
  | .spooled s => let r := adoptOwned env c s.memory; (r.1, .spooled { s with memory := r.2 })
  | .source s => let r := adoptOwned env c s.path; (r.1, .source { s with path := r.2 })
  | .jsonValue v =>
    let r := adoptOwned env c v.json
    let s := adoptOwned env r.1 v.path
    (s.1, .jsonValue { v with json := r.2, path := s.2 })
  | .object r =>
    match field.submap with
    | some m =>
      if mapMayAllocate env (some m) then
        let s := adoptExistingMembers env c (env.maps m).fields r
        (s.1, .object s.2)
      else (c, .object r)
    | none => (c, .object r)
  | .stringArray items info =>
    let r := adoptItems env c info
    let s := adoptOwnedList env r.1 items
    (s.1, .stringArray s.2 r.2)
  | .i64Array items info => let r := adoptItems env c info; (r.1, .i64Array items r.2)
  | .u64Array items info => let r := adoptItems env c info; (r.1, .u64Array items r.2)
  | .f64Array items info => let r := adoptItems env c info; (r.1, .f64Array items r.2)
  | .boolArray items info => let r := adoptItems env c info; (r.1, .boolArray items r.2)
  | .objectArray items info =>
    let r := adoptItems env c info
    match field.submap with
    | some m =>
      if info.ownsItems || mapMayAllocate env (some m) then
        let s := adoptExistingElems env r.1 (env.maps m).fields items
        (s.1, .objectArray s.2 r.2)
      else (r.1, .objectArray items r.2)
    | none => (r.1, .objectArray items r.2)
  | v => (c, v)

/-- `lonejson__parser_adopt_existing_map_allocations`. The mask of the source only
leaves out fields that own nothing. -/
def adoptExistingMembers (env : Env σ) (c : Core σ) :
    List Field → List (Value × Bool) → Core σ × List (Value × Bool)
  | field :: fields, (v, present) :: rest =>
    let r := adoptExistingValue env c field v
    let s := adoptExistingMembers env r.1 fields rest
    (s.1, (r.2, present) :: s.2)
  | _, rest => (c, rest)

/-- The elements of an object array. -/
def adoptExistingElems (env : Env σ) (c : Core σ) (fields : List Field) :
    List (List (Value × Bool)) → Core σ × List (List (Value × Bool))
  | [] => (c, [])
  | r :: rest =>
    let s := adoptExistingMembers env c fields r
    let t := adoptExistingElems env s.1 fields rest
    (t.1, s.2 :: t.2)

end

/-- The adoption at the start of a parse. -/
def adoptExisting (env : Env σ) (c : Core σ) : Core σ :=
  match env.rootMap with
  | none => c
  | some m =>
    if !env.validateOnly && !env.options.clearDestination && env.options.maxAllocBytes != 0 &&
        mapMayAllocate env (some m) then
      let r := adoptExistingMembers env c (env.maps m).fields c.dst
      { r.1 with dst := r.2 }
    else c

end Lonejson
