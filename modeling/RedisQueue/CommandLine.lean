import Mathlib.Data.List.Nodup
import Mathlib.Data.List.Basic

/-!
# Arguments on the command line

`parse_function_arg` and `parse_function_args` (`rq/cli/helpers.py`), and the grammar that the
documentation of `rq enqueue` gives for the arguments of a function.

* `splitFunctionArg_render`: an argument is split into the parts it was built from;
* `parseFunctionArgs_render_iff`: when an argument list is read back, or rejected with
  `BadParameter` just if a keyword occurs twice or a value cannot be parsed.

`json.loads`, `ast.literal_eval` and the files are parameters.
-/

namespace RedisQueue

/-- `ParsingMode` -/
inductive ParsingMode where
  | plainText | json | literalEval
deriving DecidableEq, Repr

/-- What `json.loads` raises: for a text that is not JSON, for an integer with more digits than the
interpreter converts, and for arrays and objects that are nested too deep. -/
inductive LoadsError where
  | jsonDecodeError | valueError | recursionError
deriving DecidableEq, Repr

/-- The exceptions of `click`, and those of `open` and `json.loads` that are not caught. -/
inductive ClickError where
  | badParameter (message : String)
  | fileError (filename : List Char) (hint : String)
  | osError
  | valueError
  | recursionError
deriving DecidableEq, Repr

/-- What `open` raises. -/
inductive OpenError where
  | fileNotFound | other
deriving DecidableEq, Repr

/-- The parsers for the values, and the files that can be read. -/
structure ValueParsers (V : Type) where
  /-- The object of a text. -/
  str : List Char → V
  /-- `json.loads` -/
  loads : List Char → Except LoadsError V
  /-- `ast.literal_eval`, which has no value if it raises. -/
  literalEval : List Char → Option V
  /-- `open(path).read()` -/
  read : List Char → Except OpenError (List Char)

/-! ## The parser -/

/-- `keyword or f'{arg_pos}. non keyword argument'` -/
def argumentName (keyword : Option (List Char)) (argPos : ℕ) : String :=
  match keyword with
  | none | some [] => s!"{argPos}. non keyword argument"
  | some key => String.ofList key

/-- The text of the error of `_parse_json_value` and `_parse_literal_eval_value`. -/
def invalidValue (mode : ParsingMode) (keyword : Option (List Char)) (argPos : ℕ) : String :=
  match mode with
  | .literalEval => "Unable to eval " ++ argumentName keyword argPos ++ " as Python object. See " ++
      "https://docs.python.org/3/library/ast.html#ast.literal_eval"
  | _ => "Unable to parse " ++ argumentName keyword argPos ++ " as JSON."

/-- The keyword, the mode and the text of the value: the first part of `parse_function_arg`. -/
def splitFunctionArg (argument : List Char) : Option (List Char) × ParsingMode × List Char :=
  if argument.head? = some ':' then (none, .json, argument.drop 1)
  else if argument.head? = some '%' then (none, .literalEval, argument.drop 1)
  else
    let index := argument.idxOf '='
    -- `find` is -1 without any `=`, where `idxOf` is the length of the list
    if '=' ∈ argument ∧ 0 < index then
      if ':' ∈ argument ∧ argument.idxOf ':' + 1 = index then
        (some (argument.take (index - 1)), .json, argument.drop (index + 1))
      else if '%' ∈ argument ∧ argument.idxOf '%' + 1 = index then
        (some (argument.take (index - 1)), .literalEval, argument.drop (index + 1))
      else (some (argument.take index), .plainText, argument.drop (index + 1))
    else (none, .plainText, argument)

section
variable {V : Type} (parsers : ValueParsers V)

/-- The content of the file that a value names after `@`. -/
def readValue (value : List Char) : Except ClickError (List Char) :=
  if value.head? = some '@' then
    match parsers.read (value.drop 1) with
    | .ok content => .ok content
    | .error .fileNotFound => .error (.fileError (value.drop 1) "Not found")
    | .error .other => .error .osError
  else .ok value

/-- `_parse_json_value`, which catches nothing but a `JSONDecodeError` -/
def _parseJsonValue (value : List Char) (keyword : Option (List Char)) (argPos : ℕ) :
    Except ClickError V :=
  match parsers.loads value with
  | .ok object => .ok object
  | .error .jsonDecodeError => .error (.badParameter (invalidValue .json keyword argPos))
  | .error .valueError => .error .valueError
  | .error .recursionError => .error .recursionError

/-- `_parse_literal_eval_value`, which catches every exception -/
def _parseLiteralEvalValue (value : List Char) (keyword : Option (List Char)) (argPos : ℕ) :
    Except ClickError V :=
  match parsers.literalEval value with
  | some object => .ok object
  | none => .error (.badParameter (invalidValue .literalEval keyword argPos))

/-- The end of `parse_function_arg`: the object that a value stands for. -/
def parseValue (mode : ParsingMode) (value : List Char) (keyword : Option (List Char))
    (argPos : ℕ) : Except ClickError V :=
  match mode with
  | .plainText => .ok (parsers.str value)
  | .json => _parseJsonValue parsers value keyword argPos
  | .literalEval => _parseLiteralEvalValue parsers value keyword argPos

/-- `parse_function_arg` -/
def parseFunctionArg (argument : List Char) (argPos : ℕ) :
    Except ClickError (Option (List Char) × V) := do
  let (keyword, mode, value) := splitFunctionArg argument
  let value ← readValue parsers value
  let object ← parseValue parsers mode value keyword argPos
  return (keyword, object)

def repeatedKeyword : String := "You can't specify multiple values for the same keyword."

/-- The loop of `parse_function_args` with the `args` and the `kwargs` so far. -/
def parseFunctionArgsLoop (args : List V) (kwargs : List (List Char × V)) :
    List (List Char) → Except ClickError (List V × List (List Char × V))
  | [] => .ok (args, kwargs)
  | argument :: arguments =>
    match parseFunctionArg parsers argument (args.length + 1) with
    | .error e => .error e
    | .ok (some keyword, value) =>
      if keyword ∈ kwargs.map Prod.fst then .error (.badParameter repeatedKeyword)
      else parseFunctionArgsLoop args (kwargs ++ [(keyword, value)]) arguments
    | .ok (none, value) => parseFunctionArgsLoop (args ++ [value]) kwargs arguments

/-- `parse_function_args` -/
def parseFunctionArgs (arguments : List (List Char)) :
    Except ClickError (List V × List (List Char × V)) :=
  parseFunctionArgsLoop parsers [] [] arguments

end

/-! ## The grammar -/

/-- A keyword of the grammar. -/
def IsKeyword (key : List Char) : Prop :=
  key ≠ [] ∧ ':' ∉ key ∧ '%' ∉ key ∧ '=' ∉ key ∧ '@' ∉ key

/-- A text that may stand as a value without a keyword and without a mark. -/
def IsPlain (value : List Char) : Prop :=
  value.head? ≠ some ':' ∧ value.head? ≠ some '%' ∧ ('=' ∉ value ∨ value.head? = some '=')

/-- An argument in one of the six documented shapes. The value does not name a file. -/
structure Argument where
  keyword : Option (List Char)
  mode : ParsingMode
  value : List Char
  keyword_valid : ∀ key ∈ keyword, IsKeyword key
  value_valid : value.head? ≠ some '@'
  plain_valid : keyword = none → mode = .plainText → IsPlain value

/-- What stands before the `=`, or before the value if there is no keyword. -/
def ParsingMode.mark : ParsingMode → List Char
  | .plainText => []
  | .json => [':']
  | .literalEval => ['%']

namespace Argument

@[ext]
lemma ext {a b : Argument} (hkeyword : a.keyword = b.keyword) (hmode : a.mode = b.mode)
    (hvalue : a.value = b.value) : a = b := by
  cases a
  cases b
  simp_all

/-- `key=v`, `key:=v`, `key%=v`, `v`, `:v` and `%v`. -/
def render (a : Argument) : List Char :=
  match a.keyword with
  | some key => key ++ a.mode.mark ++ '=' :: a.value
  | none => a.mode.mark ++ a.value

end Argument

/-! ## What the parser finds -/

section
variable {key : List Char} (v : List Char)

/-- The first `=` stands behind the keyword and its mark. -/
lemma idxOf_equals (mode : ParsingMode) (h : IsKeyword key) :
    (key ++ mode.mark ++ '=' :: v).idxOf '=' = key.length + mode.mark.length := by
  have hmark : '=' ∉ mode.mark := by cases mode <;> decide
  have hkey : '=' ∉ key ++ mode.mark := by simp [h.2.2.2.1, hmark]
  rw [List.idxOf_append_of_notMem hkey, List.idxOf_cons_self, List.length_append, Nat.add_zero]

/-- A mark directly before the `=` is found there. -/
lemma idxOf_mark {c : Char} (h : c ∉ key) :
    (key ++ [c] ++ '=' :: v).idxOf c + 1 = key.length + 1 := by
  rw [List.append_assoc, List.idxOf_append_of_notMem h, List.singleton_append, List.idxOf_cons_self]

/-- The marks of the value are found behind the `=`. -/
lemma idxOf_value {c : Char} {mode : ParsingMode} (hkey : c ∉ key) (hmark : c ∉ mode.mark) :
    (key ++ mode.mark ++ '=' :: v).idxOf c + 1 ≠ key.length + mode.mark.length := by
  have hbefore : c ∉ key ++ mode.mark := by simp [hkey, hmark]
  rw [List.idxOf_append_of_notMem hbefore, List.length_append]
  omega

lemma head?_keyword (h : IsKeyword key) (rest : List Char) {c : Char} (hc : c ∉ key) :
    (key ++ rest).head? ≠ some c := by
  cases key with
  | nil => exact absurd rfl h.1
  | cons k key =>
    intro hhead
    have hk : k = c := by simpa using hhead
    exact hc (by simp [hk])

/-- The keyword with its mark is followed by the `=`, whatever the value holds. -/
lemma splitFunctionArg_keyword (mode : ParsingMode) (h : IsKeyword key) :
    splitFunctionArg (key ++ mode.mark ++ '=' :: v) = (some key, mode, v) := by
  obtain ⟨hne, hcolon, hpercent, -, -⟩ := id h
  have hlength : 0 < key.length := List.length_pos_iff.mpr hne
  have hhead : ∀ c ∉ key, (key ++ mode.mark ++ '=' :: v).head? ≠ some c := by
    intro c hc
    rw [List.append_assoc]
    exact head?_keyword h _ hc
  have hdrop : (key ++ mode.mark ++ '=' :: v).drop (key.length + mode.mark.length + 1) = v := by
    rw [← List.length_append, List.drop_append]
    simp
  have htake : (key ++ mode.mark ++ '=' :: v).take key.length = key := by
    rw [List.append_assoc]
    exact List.take_left
  unfold splitFunctionArg
  rw [if_neg (hhead _ hcolon), if_neg (hhead _ hpercent)]
  simp only [idxOf_equals v mode h, hdrop]
  rw [if_pos ⟨by simp, by omega⟩]
  cases mode with
  | plainText =>
    -- a mark of the value is behind the `=`
    rw [if_neg fun hmark => idxOf_value v hcolon List.not_mem_nil hmark.2,
      if_neg fun hmark => idxOf_value v hpercent List.not_mem_nil hmark.2]
    exact congrArg (fun k => (some k, _, v)) htake
  | json =>
    rw [if_pos ⟨by simp [ParsingMode.mark], idxOf_mark v hcolon⟩]
    exact congrArg (fun k => (some k, _, v)) htake
  | literalEval =>
    rw [if_neg fun hmark => idxOf_value v hcolon (by decide) hmark.2,
      if_pos ⟨by simp [ParsingMode.mark], idxOf_mark v hpercent⟩]
    exact congrArg (fun k => (some k, _, v)) htake

/-- Without a keyword a mark in front decides, and a plain value has no `=` behind a keyword. -/
lemma splitFunctionArg_value (mode : ParsingMode) (h : mode = .plainText → IsPlain v) :
    splitFunctionArg (mode.mark ++ v) = (none, mode, v) := by
  cases mode with
  | plainText =>
    obtain ⟨hcolon, hpercent, hequals⟩ := h rfl
    have hnot : ¬ ('=' ∈ v ∧ 0 < v.idxOf '=') := by
      intro ⟨hmem, hpos⟩
      have hhead := hequals.resolve_left (not_not_intro hmem)
      cases v with
      | nil => simp at hmem
      | cons c v =>
        have hc : c = '=' := by simpa using hhead
        rw [hc, List.idxOf_cons_self] at hpos
        omega
    simp [splitFunctionArg, ParsingMode.mark, hcolon, hpercent, hnot]
  | json => simp [splitFunctionArg, ParsingMode.mark]
  | literalEval => simp [splitFunctionArg, ParsingMode.mark]

end

namespace Argument

/-- The parser splits an argument into the parts that it was built from. -/
theorem splitFunctionArg_render (a : Argument) :
    splitFunctionArg a.render = (a.keyword, a.mode, a.value) := by
  unfold render
  cases hkeyword : a.keyword with
  | some key => exact splitFunctionArg_keyword a.value a.mode (a.keyword_valid key hkeyword)
  | none => exact splitFunctionArg_value a.value a.mode (a.plain_valid hkeyword)

example : splitFunctionArg "key:=a:=%=b".toList = (some "key".toList, .json, "a:=%=b".toList) := by
  decide

/-- No text can be read as two arguments. -/
theorem render_injective : Function.Injective render := by
  intro a b h
  have hparts : (a.keyword, a.mode, a.value) = (b.keyword, b.mode, b.value) := by
    rw [← splitFunctionArg_render a, ← splitFunctionArg_render b, h]
  have hkeyword := congrArg Prod.fst hparts
  have hrest := congrArg Prod.snd hparts
  exact Argument.ext hkeyword (congrArg Prod.fst hrest) (congrArg Prod.snd hrest)

section
variable {V : Type} (parsers : ValueParsers V)

/-- The object of the value of an argument, if it is valid. -/
def object (a : Argument) : Option V :=
  match a.mode with
  | .plainText => some (parsers.str a.value)
  | .json => (parsers.loads a.value).toOption
  | .literalEval => parsers.literalEval a.value

/-- The positional values, in order. -/
def positional (as : List Argument) : List V :=
  (as.filter fun a => a.keyword.isNone).filterMap (object parsers)

/-- The keywords with their values, in order. -/
def keywords (as : List Argument) : List (List Char × V) :=
  as.filterMap fun a => a.keyword.bind fun key => (a.object parsers).map fun v => (key, v)

/-- No keyword occurs twice, and all values can be parsed. -/
def Valid (as : List Argument) : Prop :=
  (as.filterMap keyword).Nodup ∧ ∀ a ∈ as, (a.object parsers).isSome

/-- The value is JSON text on which `json.loads` raises something else than a `JSONDecodeError`. -/
def Uncaught (a : Argument) : Prop :=
  a.mode = .json ∧
    (parsers.loads a.value = .error .valueError ∨ parsers.loads a.value = .error .recursionError)

/-- The keyword with the object, or the error that names the argument, or that of `json.loads`. -/
def parsed (a : Argument) (argPos : ℕ) : Except ClickError (Option (List Char) × V) :=
  match a.object parsers, a.mode, parsers.loads a.value with
  | some v, _, _ => .ok (a.keyword, v)
  | none, .json, .error .valueError => .error .valueError
  | none, .json, .error .recursionError => .error .recursionError
  | none, mode, _ => .error (.badParameter (invalidValue mode a.keyword argPos))

/-- A list of arguments is read back if it is valid, and rejected with `BadParameter` just if it is
not. -/
def ReadsBack (as : List Argument) : Prop :=
  (Valid parsers as → parseFunctionArgs parsers (as.map render) =
    .ok (positional parsers as, keywords parsers as)) ∧
  ((∃ message, parseFunctionArgs parsers (as.map render) = .error (.badParameter message)) ↔
    ¬Valid parsers as)

/-- A value with an exception that is not caught stands only behind arguments that are rejected. -/
def Caught (as : List Argument) : Prop :=
  ∀ before a after, as = before ++ a :: after → a.Uncaught parsers → ¬Valid parsers before

variable {parsers}

/-- One argument is parsed to what it stands for. -/
theorem parseFunctionArg_eq (a : Argument) (argPos : ℕ) :
    parseFunctionArg parsers a.render argPos = a.parsed parsers argPos := by
  have hread : readValue parsers a.value = .ok a.value := if_neg a.value_valid
  unfold parseFunctionArg
  rw [a.splitFunctionArg_render]
  simp only [hread]
  change (parseValue parsers a.mode a.value a.keyword argPos >>= fun object =>
    pure (a.keyword, object)) = _
  unfold parsed object parseValue
  cases a.mode with
  | plainText => rfl
  | json =>
    unfold _parseJsonValue
    cases parsers.loads a.value with
    | ok v => rfl
    | error e => cases e <;> rfl
  | literalEval =>
    unfold _parseLiteralEvalValue
    cases parsers.literalEval a.value <;> rfl

lemma parsed_of_object {a : Argument} {v : V} (h : a.object parsers = some v) (argPos : ℕ) :
    a.parsed parsers argPos = .ok (a.keyword, v) := by
  simp only [parsed, h]

/-- An argument without an object is rejected, unless the exception is not caught. -/
lemma parsed_of_invalid {a : Argument} (h : a.object parsers = none)
    (hcaught : ¬a.Uncaught parsers) (argPos : ℕ) :
    a.parsed parsers argPos =
      .error (.badParameter (invalidValue a.mode a.keyword argPos)) := by
  unfold parsed
  rw [h]
  split
  · next heq => cases heq
  · next hmode hloads => exact absurd ⟨hmode, .inl hloads⟩ hcaught
  · next hmode hloads => exact absurd ⟨hmode, .inr hloads⟩ hcaught
  · rfl

lemma object_of_uncaught {a : Argument} (h : a.Uncaught parsers) : a.object parsers = none := by
  obtain ⟨hmode, hloads | hloads⟩ := h <;>
  · unfold object
    rw [hmode]
    simp only [hloads]
    rfl

/-- An exception that is not caught is passed on. -/
lemma parsed_of_uncaught {a : Argument} (h : a.Uncaught parsers) (argPos : ℕ) :
    ∃ e, a.parsed parsers argPos = .error e ∧ ∀ message, e ≠ .badParameter message := by
  unfold parsed
  rw [object_of_uncaught h, h.1]
  obtain ⟨-, hloads | hloads⟩ := h <;>
  · simp only [hloads]
    exact ⟨_, rfl, by simp⟩

/-! ### One round of the loop -/

variable {args : List V} {kwargs : List (List Char × V)} {a : Argument}
  (rest : List (List Char))

lemma loop_positional {v : V} (h : a.object parsers = some v) (hkeyword : a.keyword = none) :
    parseFunctionArgsLoop parsers args kwargs (a.render :: rest) =
      parseFunctionArgsLoop parsers (args ++ [v]) kwargs rest := by
  rw [parseFunctionArgsLoop, parseFunctionArg_eq, parsed_of_object h, hkeyword]

lemma loop_keyword {v : V} {key : List Char} (h : a.object parsers = some v)
    (hkeyword : a.keyword = some key) (hnew : key ∉ kwargs.map Prod.fst) :
    parseFunctionArgsLoop parsers args kwargs (a.render :: rest) =
      parseFunctionArgsLoop parsers args (kwargs ++ [(key, v)]) rest := by
  rw [parseFunctionArgsLoop, parseFunctionArg_eq, parsed_of_object h, hkeyword]
  exact if_neg hnew

lemma loop_repeated {v : V} {key : List Char} (h : a.object parsers = some v)
    (hkeyword : a.keyword = some key) (hold : key ∈ kwargs.map Prod.fst) :
    parseFunctionArgsLoop parsers args kwargs (a.render :: rest) =
      .error (.badParameter repeatedKeyword) := by
  rw [parseFunctionArgsLoop, parseFunctionArg_eq, parsed_of_object h, hkeyword]
  exact if_pos hold

lemma loop_error {e : ClickError} (h : a.parsed parsers (args.length + 1) = .error e) :
    parseFunctionArgsLoop parsers args kwargs (a.render :: rest) = .error e := by
  rw [parseFunctionArgsLoop, parseFunctionArg_eq, h]

/-! ### The whole list -/

/-- With the keywords so far no keyword occurs twice, and all values can be parsed. -/
def ValidAfter (parsers : ValueParsers V) (kwargs : List (List Char × V)) (as : List Argument) :
    Prop :=
  (kwargs.map Prod.fst ++ as.filterMap keyword).Nodup ∧ ∀ a ∈ as, (a.object parsers).isSome

/-- A valid argument, and what is valid behind it. -/
lemma validAfter_cons {as : List Argument} {v : V} (h : a.object parsers = some v) :
    ValidAfter parsers kwargs (a :: as) ↔
      match a.keyword with
      | none => ValidAfter parsers kwargs as
      | some key => ValidAfter parsers (kwargs ++ [(key, v)]) as := by
  unfold ValidAfter
  cases hkeyword : a.keyword with
  | none => simp [List.filterMap_cons_none hkeyword, h]
  | some key =>
    simp only [List.filterMap_cons_some hkeyword, List.forall_mem_cons, h, Option.isSome_some,
      true_and, List.map_append, List.map_cons, List.map_nil, List.append_assoc, List.cons_append,
      List.nil_append]

/-- The keyword of a valid argument is none of those so far. -/
lemma ValidAfter.notMem {as : List Argument} {key : List Char}
    (h : ValidAfter parsers kwargs (a :: as)) (hkeyword : a.keyword = some key) :
    key ∉ kwargs.map Prod.fst := by
  intro hold
  have hnodup := h.1
  rw [List.filterMap_cons_some hkeyword] at hnodup
  exact (List.nodup_append.mp hnodup).2.2 key hold key List.mem_cons_self rfl

/-- A valid list is taken apart before what follows; the `args` and the `kwargs` grow at their
ends. -/
lemma loop_of_valid (as : List Argument) : ∀ (args : List V) (kwargs : List (List Char × V)),
    ValidAfter parsers kwargs as →
    parseFunctionArgsLoop parsers args kwargs (as.map render ++ rest) =
      parseFunctionArgsLoop parsers (args ++ positional parsers as) (kwargs ++ keywords parsers as)
        rest := by
  induction as with
  | nil =>
    intro args kwargs _
    simp [positional, keywords]
  | cons a as ih =>
    intro args kwargs hvalid
    obtain ⟨v, hv⟩ := Option.isSome_iff_exists.mp (hvalid.2 a List.mem_cons_self)
    have hrest := (validAfter_cons hv).mp hvalid
    rw [List.map_cons, List.cons_append]
    cases hkeyword : a.keyword with
    | none =>
      rw [hkeyword] at hrest
      rw [loop_positional _ hv hkeyword, ih _ _ hrest]
      simp [positional, keywords, hkeyword, hv]
    | some key =>
      rw [hkeyword] at hrest
      rw [loop_keyword _ hv hkeyword (hvalid.notMem hkeyword), ih _ _ hrest]
      simp [positional, keywords, hkeyword, hv]

/-- A list that is not valid is rejected, unless an exception is not caught before that. -/
lemma loop_of_not_valid (as : List Argument) :
    ∀ (args : List V) (kwargs : List (List Char × V)), (kwargs.map Prod.fst).Nodup →
    (∀ before a after, as = before ++ a :: after → a.Uncaught parsers →
      ¬ValidAfter parsers kwargs before) →
    ¬ValidAfter parsers kwargs as →
    ∃ message, parseFunctionArgsLoop parsers args kwargs (as.map render) =
      .error (.badParameter message) := by
  induction as with
  | nil =>
    intro args kwargs hkwargs _ hinvalid
    exact absurd ⟨by simpa using hkwargs, by simp⟩ hinvalid
  | cons a as ih =>
    intro args kwargs hkwargs hcaught hinvalid
    have hnil : ValidAfter parsers kwargs [] := ⟨by simpa using hkwargs, by simp⟩
    rw [List.map_cons]
    cases hv : a.object parsers with
    | none =>
      have hnot : ¬a.Uncaught parsers := fun h => hcaught [] a as rfl h hnil
      exact ⟨_, loop_error _ (parsed_of_invalid hv hnot _)⟩
    | some v =>
      rw [validAfter_cons hv] at hinvalid
      cases hkeyword : a.keyword with
      | none =>
        rw [hkeyword] at hinvalid
        rw [loop_positional _ hv hkeyword]
        refine ih _ _ hkwargs (fun before b after heq hb hbefore => ?_) hinvalid
        refine hcaught (a :: before) b after (by rw [heq, List.cons_append]) hb ?_
        rw [validAfter_cons hv, hkeyword]
        exact hbefore
      | some key =>
        rw [hkeyword] at hinvalid
        by_cases hold : key ∈ kwargs.map Prod.fst
        · exact ⟨_, loop_repeated _ hv hkeyword hold⟩
        · rw [loop_keyword _ hv hkeyword hold]
          have hkeys : ((kwargs ++ [(key, v)]).map Prod.fst).Nodup := by
            rw [List.map_append]
            exact List.Nodup.append hkwargs (List.nodup_singleton _) (by simpa using hold)
          refine ih _ _ hkeys (fun before b after heq hb hbefore => ?_) hinvalid
          refine hcaught (a :: before) b after (by rw [heq, List.cons_append]) hb ?_
          rw [validAfter_cons hv, hkeyword]
          exact hbefore

/-- Behind valid arguments an exception that is not caught ends the loop. -/
lemma loop_of_uncaught {before after : List Argument} (hbefore : Valid parsers before)
    (ha : a.Uncaught parsers) :
    ∃ e, parseFunctionArgs parsers ((before ++ a :: after).map render) = .error e ∧
      ∀ message, e ≠ .badParameter message := by
  obtain ⟨e, he, hne⟩ := parsed_of_uncaught ha ((positional parsers before).length + 1)
  refine ⟨e, ?_, hne⟩
  unfold parseFunctionArgs
  rw [List.map_append, List.map_cons, loop_of_valid _ before [] [] hbefore, List.nil_append,
    List.nil_append]
  exact loop_error _ he

/-- An exception that is not caught is neither a result nor a `BadParameter`. -/
lemma caught_of_readsBack {as : List Argument} (hreads : ReadsBack parsers as) :
    Caught parsers as := by
  rintro before a after rfl ha hbefore
  obtain ⟨e, he, hne⟩ := @loop_of_uncaught V parsers a before after hbefore ha
  have hinvalid : ¬Valid parsers (before ++ a :: after) := fun hvalid => by
    have hobject := hvalid.2 a (by simp)
    rw [object_of_uncaught ha] at hobject
    cases hobject
  obtain ⟨message, herror⟩ := hreads.2.mpr hinvalid
  rw [he] at herror
  exact hne message (Except.error.inj herror)

variable (parsers)

/-- A text stands for one argument only, and one argument is parsed to its keyword and its object;
a list of them is read back, or rejected with `BadParameter`, just if no exception of `json.loads`
that is not caught comes before the first argument that is rejected. -/
theorem parseFunctionArgs_render_iff :
    Function.Injective render ∧
    (∀ (a : Argument) (argPos : ℕ),
      parseFunctionArg parsers a.render argPos = a.parsed parsers argPos) ∧
    ∀ as : List Argument, ReadsBack parsers as ↔ Caught parsers as := by
  refine ⟨render_injective, parseFunctionArg_eq, fun as => ⟨caught_of_readsBack, fun hcaught => ?_⟩⟩
  have hok : Valid parsers as → parseFunctionArgs parsers (as.map render) =
      .ok (positional parsers as, keywords parsers as) := by
    intro hvalid
    have hloop := @loop_of_valid V parsers [] as [] [] hvalid
    rwa [List.append_nil] at hloop
  refine ⟨hok, ?_, ?_⟩
  · rintro ⟨message, herror⟩ hvalid
    rw [hok hvalid] at herror
    cases herror
  · intro hinvalid
    exact loop_of_not_valid as [] [] List.nodup_nil hcaught hinvalid

end

/-! ### A long integer -/

/-- `json.loads` on texts of digits, of which the interpreter converts at most 4300. -/
def digitParsers : ValueParsers ℕ where
  str value := value.length
  loads value :=
    if value = [] ∨ value.all Char.isDigit = false then .error .jsonDecodeError
    else if 4300 < value.length then .error .valueError
    else .ok (value.foldl (fun n c => 10 * n + (c.toNat - '0'.toNat)) 0)
  literalEval _ := none
  read _ := .error .fileNotFound

/-- The argument `:` followed by `n` ones. -/
def onesArgument (n : ℕ) : Argument where
  keyword := none
  mode := .json
  value := List.replicate n '1'
  keyword_valid := by simp
  value_valid := by cases n <;> simp [List.replicate_succ]
  plain_valid _ h := by cases h

example : (onesArgument 3).parsed digitParsers 1 = .ok (none, 111) := by decide

/-- An integer of too many digits is neither read back nor rejected with `BadParameter`. -/
lemma not_readsBack_of_long {n : ℕ} (h : 4300 < n) : ¬ReadsBack digitParsers [onesArgument n] := by
  have hall : (List.replicate n '1').all Char.isDigit = true := by
    rw [List.all_eq_true]
    intro c hc
    obtain rfl := List.eq_of_mem_replicate hc
    decide
  have hdigits :
      ¬(List.replicate n '1' = [] ∨ (List.replicate n '1').all Char.isDigit = false) := by
    rintro (hnil | hdigit)
    · rw [List.replicate_eq_nil_iff] at hnil
      omega
    · rw [hall] at hdigit
      cases hdigit
  have huncaught : (onesArgument n).Uncaught digitParsers := by
    refine ⟨rfl, .inl ?_⟩
    simp only [digitParsers, onesArgument]
    rw [if_neg hdigits, if_pos (by rwa [List.length_replicate])]
  intro hreads
  exact caught_of_readsBack hreads [] _ [] rfl huncaught ⟨List.nodup_nil, by simp⟩

theorem ones_not_readsBack : ¬ReadsBack digitParsers [onesArgument 5000] :=
  not_readsBack_of_long (by decide)

end Argument

end RedisQueue
