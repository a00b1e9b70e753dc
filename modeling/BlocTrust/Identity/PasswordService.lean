import BlocTrust.Encodings
import BlocTrust.JsonReader
import Mathlib.Algebra.Group.Nat.Defs
import Mathlib.Data.List.TakeWhile

/-!
`PasswordService`: Argon2id hashes as texts.
A hash is written with whatever parameters are configured and read back through a pattern, the
range of the safe integers and limits of its own.  Argon2id and the decimal texts of numbers are
parameters; a hash is verified exactly when the configured memory and passes are within the limits
of the reader.
-/
namespace BlocTrust.Identity.PasswordService

open JsonReader (isNumberChar isNumberChar_digit)

section Service

/-- A configured number, `Number(process.env…)`. -/
inductive Parameter
  | integer (n : Nat)
  | other
  deriving DecidableEq, Repr

structure ArgonParameters where
  memory : Parameter
  passes : Parameter
  parallelism : Nat
  tagLength : Nat
  deriving DecidableEq, Repr

/-- Positive integers with eight KiB for each lane. -/
def ArgonParameters.Supported (p : ArgonParameters) : Prop :=
  ∃ memory passes, p.memory = .integer memory ∧ p.passes = .integer passes ∧
    8 * p.parallelism ≤ memory ∧ 1 ≤ passes ∧ 1 ≤ p.parallelism

/-- Argon2id succeeds exactly on supported parameters, with a key of the length asked for. -/
structure Argon2id where
  derive : Text → Bytes → ArgonParameters → Option Bytes
  succeeds : ∀ message nonce p, (derive message nonce p).isSome ↔ p.Supported
  length : ∀ message nonce p, ∀ key ∈ derive message nonce p, key.length = p.tagLength

/-- The texts of integers as numbers: safe ones in decimal, and no other as a safe one. -/
structure Numerals where
  text : Nat → Text
  isNumberChar_of_mem : ∀ n, ∀ c ∈ text n, isNumberChar c = true
  safe : ∀ n < 2 ^ 53, text n = digits n
  unsafe_digits : ∀ n, 2 ^ 53 ≤ n → (∀ c ∈ text n, c.isDigit = true) →
    2 ^ 53 ≤ Nat.ofDigitChars 10 (text n) 0

/-- `randomBytes(16)` -/
structure Salt where
  bytes : Bytes
  length : bytes.length = 16

structure Config where
  memory : Parameter
  passes : Parameter
  deriving DecidableEq, Repr

def Config.parameters (config : Config) : ArgonParameters :=
  ⟨config.memory, config.passes, 1, 32⟩

/-- `toString('base64').replace(/=+$/u, '')` -/
def encode (value : Bytes) : Text := ((base64 value).reverse.dropWhile (· = '=')).reverse

def parameterText (numerals : Numerals) : Parameter → Text
  | .integer n => numerals.text n
  | .other => "NaN".toList

def encodedHash (memory passes : Text) (salt key : Bytes) : Text :=
  "$argon2id$v=19$m=".toList ++ (memory ++ ([',', 't', '='] ++ (passes ++ ([',', 'p', '='] ++
    (['1'] ++ (['$'] ++ (encode salt ++ (['$'] ++ encode key))))))))

/-- `none` is the error of Argon2id. -/
def hash (argon2 : Argon2id) (numerals : Numerals) (config : Config) (password : Text)
    (salt : Salt) : Option Text :=
  (argon2.derive password salt.bytes config.parameters).map fun key =>
    encodedHash (parameterText numerals config.memory) (parameterText numerals config.passes)
      salt.bytes key

end Service

section Parse

/-- A literal part of the pattern. -/
def expect (word t : Text) : Option Text :=
  if t.take word.length = word then some (t.drop word.length) else none

/-- `(\d+)` -/
def readDigits (t : Text) : Option (Text × Text) :=
  if t.takeWhile Char.isDigit = [] then none
  else some (t.takeWhile Char.isDigit, t.dropWhile Char.isDigit)

/-- `([^$]+)` -/
def readField (t : Text) : Option (Text × Text) :=
  if t.takeWhile (· ≠ '$') = [] then none
  else some (t.takeWhile (· ≠ '$'), t.dropWhile (· ≠ '$'))

structure Groups where
  memory : Text
  passes : Text
  parallelism : Text
  salt : Text
  hash : Text
  deriving DecidableEq, Repr

/-- `/^\$argon2id\$v=19\$m=(\d+),t=(\d+),p=(\d+)\$([^$]+)\$([^$]+)$/u` -/
def matchHash (encodedHash : Text) : Option Groups := do
  let t ← expect "$argon2id$v=19$m=".toList encodedHash
  let memory ← readDigits t
  let t ← expect [',', 't', '='] memory.2
  let passes ← readDigits t
  let t ← expect [',', 'p', '='] passes.2
  let parallelism ← readDigits t
  let t ← expect ['$'] parallelism.2
  let salt ← readField t
  let t ← expect ['$'] salt.2
  let hash ← readField t
  if hash.2 = [] then some ⟨memory.1, passes.1, parallelism.1, salt.1, hash.1⟩ else none

/-- `Number` of some digits, when it is a safe integer. -/
def safeInteger (digits : Text) : Option Nat :=
  if Nat.ofDigitChars 10 digits 0 < 2 ^ 53 then some (Nat.ofDigitChars 10 digits 0) else none

structure Parsed where
  salt : Bytes
  expected : Bytes
  parameters : ArgonParameters
  deriving DecidableEq, Repr

def maxMemoryKib : Nat := 262144
def maxPasses : Nat := 10
def maxParallelism : Nat := 8

def parse (encodedHash : Text) : Option Parsed := do
  let groups ← matchHash encodedHash
  let memory ← safeInteger groups.memory
  let passes ← safeInteger groups.passes
  let parallelism ← safeInteger groups.parallelism
  let salt := decodeBase64 groups.salt
  let expected := decodeBase64 groups.hash
  if memory < 8 * parallelism ∨ maxMemoryKib < memory ∨ passes < 1 ∨ maxPasses < passes ∨
      parallelism < 1 ∨ maxParallelism < parallelism ∨ salt.length < 16 ∨ 64 < salt.length ∨
      expected.length < 16 ∨ 64 < expected.length then none
  else some ⟨salt, expected, ⟨.integer memory, .integer passes, parallelism, expected.length⟩⟩

/-- The parameters are those of the text: verification reads no configuration. -/
def verify (argon2 : Argon2id) (password encodedHash : Text) : Bool :=
  match parse encodedHash with
  | none => false
  | some parsed =>
      match argon2.derive password parsed.salt parsed.parameters with
      | none => false
      | some candidate =>
          candidate.length == parsed.expected.length && candidate == parsed.expected

end Parse

section Fields

variable {rest word : Text}

theorem expect_append : expect word (word ++ rest) = some rest := by
  unfold expect
  rw [List.take_left, if_pos rfl, List.drop_left]

theorem readDigits_append {ds : Text} (hne : ds ≠ []) (hds : ∀ c ∈ ds, c.isDigit = true)
    (hrest : ∀ c ∈ rest.head?, c.isDigit = false) :
    readDigits (ds ++ rest) = some (ds, rest) := by
  obtain ⟨htake, hdrop⟩ := JsonReader.takeWhile_append hds hrest
  unfold readDigits
  rw [htake, hdrop, if_neg hne]

theorem readField_append {field : Text} (hne : field ≠ []) (hfield : ∀ c ∈ field, c ≠ '$')
    (hrest : ∀ c ∈ rest.head?, c = '$') : readField (field ++ rest) = some (field, rest) := by
  have hhead : ∀ c ∈ rest.head?, decide (c ≠ '$') = false := by
    intro c hc
    simp [hrest c hc]
  obtain ⟨htake, hdrop⟩ := JsonReader.takeWhile_append
    (fun c hc => decide_eq_true (hfield c hc)) hhead
  unfold readField
  rw [htake, hdrop, if_neg hne]

/-- The digits of a numeral end before the numeral does, unless it has only digits. -/
theorem readDigits_numeral {t : Text} (ht : ∀ c ∈ t, isNumberChar c = true)
    (hother : ¬ ∀ c ∈ t, c.isDigit = true) (word : Text) {p : Text × Text}
    (h : readDigits (t ++ rest) = some p) : expect (',' :: word) p.2 = none := by
  obtain ⟨c, behind, hdrop⟩ : ∃ c behind, t.dropWhile Char.isDigit = c :: behind := by
    refine List.exists_cons_of_ne_nil fun hnil => hother ?_
    exact List.dropWhile_eq_nil_iff.mp hnil
  have hc : c.isDigit = false := by
    have hhead := List.head?_dropWhile_not Char.isDigit t
    rw [hdrop] at hhead
    simpa using hhead
  have hsplit : t = t.takeWhile Char.isDigit ++ c :: behind := by
    rw [← hdrop, List.takeWhile_append_dropWhile]
  have hcomma : c ≠ ',' := by
    rintro rfl
    have hmem : ',' ∈ t := by
      rw [hsplit]
      simp
    exact absurd (ht _ hmem) (by decide)
  obtain ⟨htake', hdrop'⟩ := @JsonReader.takeWhile_append Char.isDigit
    (t.takeWhile Char.isDigit) (c :: (behind ++ rest))
    (fun d hd => List.mem_takeWhile_imp hd) (by
      intro d hd
      cases hd
      exact hc)
  have hwhole : t ++ rest = t.takeWhile Char.isDigit ++ c :: (behind ++ rest) := by
    conv =>
      lhs
      rw [hsplit]
    simp
  unfold readDigits at h
  rw [hwhole, htake', hdrop'] at h
  split_ifs at h
  cases h
  unfold expect
  rw [if_neg]
  intro heq
  exact hcomma (List.cons.inj heq).1

end Fields

section Reading

variable {numerals : Numerals} {salt key : Bytes}

theorem encode_eq (value : Bytes) : encode value = (sextets value).map (sextetChar false) := by
  have hlast : ∀ c ∈ ((sextets value).map (sextetChar false)).reverse.head?,
      decide (c = '=') = false := by
    intro c hc
    obtain ⟨n, hn, rfl⟩ := List.mem_map.mp (List.mem_reverse.mp (List.mem_of_mem_head? hc))
    exact decide_eq_false (sextetChar_plain false n (sextets_lt value n hn)).1
  have hpadding : ∀ c ∈ List.replicate ((3 - value.length % 3) % 3) '=',
      decide (c = '=') = true := fun c hc => decide_eq_true (List.eq_of_mem_replicate hc)
  unfold encode base64
  rw [List.reverse_append, List.reverse_replicate,
    (JsonReader.takeWhile_append hpadding hlast).2, List.reverse_reverse]

theorem decode_encode (value : Bytes) : decodeBase64 (encode value) = value := by
  have h := @decodeBase64_map false value [] (by simp)
  rwa [List.append_nil, ← encode_eq] at h

theorem encode_no_dollar {value : Bytes} : ∀ c ∈ encode value, c ≠ '$' := by
  have hplain : ∀ n < 64, sextetChar false n ≠ '$' := by decide
  rw [encode_eq]
  intro c hc
  obtain ⟨n, hn, rfl⟩ := List.mem_map.mp hc
  exact hplain n (sextets_lt value n hn)

theorem encode_ne_nil {value : Bytes} (h : value ≠ []) : encode value ≠ [] := by
  intro hnil
  have hback := decode_encode value
  rw [hnil] at hback
  exact h hback.symm

/-- Texts of digits are what the pattern finds in their places. -/
theorem matchHash_digits {memory passes : Text} (hmemory : memory ≠ [])
    (hpasses : passes ≠ []) (hm : ∀ c ∈ memory, c.isDigit = true)
    (hp : ∀ c ∈ passes, c.isDigit = true) (hsalt : salt ≠ []) (hkey : key ≠ []) :
    matchHash (encodedHash memory passes salt key) =
      some ⟨memory, passes, ['1'], encode salt, encode key⟩ := by
  have hcomma : ∀ {w rest : Text}, ∀ c ∈ ((',' :: w) ++ rest).head?, c.isDigit = false := by
    intro w rest c hc
    cases hc
    decide
  have hone : ∀ c ∈ (['1'] : Text), c.isDigit = true := by
    intro c hc
    rw [List.mem_singleton.mp hc]
    rfl
  have hdollar : ∀ c ∈ (['$'] ++ (encode salt ++ (['$'] ++ encode key))).head?,
      c.isDigit = false := by
    intro c hc
    cases hc
    decide
  have hsaltEnd : ∀ c ∈ (['$'] ++ encode key).head?, c = '$' := by
    intro c hc
    cases hc
    rfl
  have hkeyEnd : ∀ c ∈ ([] : Text).head?, c = '$' := by
    intro c hc
    cases hc
  have hfield := readField_append (encode_ne_nil hkey) encode_no_dollar hkeyEnd
  rw [List.append_nil] at hfield
  unfold matchHash encodedHash
  simp only [Option.bind_eq_bind, expect_append, Option.bind_some,
    readDigits_append hmemory hm hcomma, readDigits_append hpasses hp hcomma,
    readDigits_append (List.cons_ne_nil '1' []) hone hdollar,
    readField_append (encode_ne_nil hsalt) encode_no_dollar hsaltEnd, hfield]
  rfl

/-- A numeral that is not made of digits does not fit the pattern. -/
theorem matchHash_other {memory passes : Text} (hm : ∀ c ∈ memory, isNumberChar c = true)
    (hp : ∀ c ∈ passes, isNumberChar c = true)
    (hother : ¬ ((∀ c ∈ memory, c.isDigit = true) ∧ ∀ c ∈ passes, c.isDigit = true)) :
    matchHash (encodedHash memory passes salt key) = none := by
  have hcomma : ∀ {w rest : Text}, ∀ c ∈ ((',' :: w) ++ rest).head?, c.isDigit = false := by
    intro w rest c hc
    cases hc
    decide
  unfold matchHash encodedHash
  simp only [Option.bind_eq_bind]
  rw [expect_append, Option.bind_some]
  by_cases hmdigits : ∀ c ∈ memory, c.isDigit = true
  · by_cases hempty : memory = []
    · subst hempty
      rfl
    · rw [readDigits_append hempty hmdigits hcomma, Option.bind_some, expect_append,
        Option.bind_some]
      cases hread : readDigits (passes ++ ([',', 'p', '='] ++ (['1'] ++ (['$'] ++ (encode salt ++
          (['$'] ++ encode key)))))) with
      | none => rfl
      | some p =>
          rw [Option.bind_some, readDigits_numeral hp (fun hpdigits =>
            hother ⟨hmdigits, hpdigits⟩) _ hread]
          rfl
  · cases hread : readDigits (memory ++ ([',', 't', '='] ++ (passes ++ ([',', 'p', '='] ++
        (['1'] ++ (['$'] ++ (encode salt ++ (['$'] ++ encode key)))))))) with
    | none => rfl
    | some p =>
        rw [Option.bind_some, readDigits_numeral hm hmdigits _ hread]
        rfl

end Reading

section Limits

variable {numerals : Numerals} {salt key : Bytes}

theorem text_ne_nil (numerals : Numerals) (n : Nat) : numerals.text n ≠ [] := by
  intro hnil
  by_cases hsafe : n < 2 ^ 53
  · rw [numerals.safe n hsafe] at hnil
    exact JsonReader.digits_ne_nil n hnil
  · have hvalue := numerals.unsafe_digits n (Nat.le_of_not_lt hsafe) (by simp [hnil])
    rw [hnil] at hvalue
    exact absurd hvalue (by decide)

theorem safe_digits (numerals : Numerals) {n : Nat} (h : n < 2 ^ 53) :
    ∀ c ∈ numerals.text n, c.isDigit = true := by
  rw [numerals.safe n h]
  exact fun c hc => JsonReader.isDigit_of_mem_digits hc

/-- A text of digits is read as the number it was written for, when that number is safe. -/
theorem safeInteger_text {n : Nat} (h : ∀ c ∈ numerals.text n, c.isDigit = true) :
    safeInteger (numerals.text n) = if n < 2 ^ 53 then some n else none := by
  unfold safeInteger
  by_cases hsafe : n < 2 ^ 53
  · rw [numerals.safe n hsafe, JsonReader.digits_eq, Nat.ofDigitChars_ten_toDigits, if_pos hsafe]
  · have hvalue := numerals.unsafe_digits n (Nat.le_of_not_lt hsafe) h
    rw [if_neg (by omega), if_neg hsafe]

theorem parse_within {memory passes : Nat} (hmemory : 8 ≤ memory) (hpasses : 1 ≤ passes)
    (hmemory' : memory ≤ maxMemoryKib) (hpasses' : passes ≤ maxPasses) (hsalt : salt.length = 16)
    (hkey : key.length = 32) :
    parse (encodedHash (numerals.text memory) (numerals.text passes) salt key) =
      some ⟨salt, key, ⟨.integer memory, .integer passes, 1, key.length⟩⟩ := by
  have hsaltNe : salt ≠ [] := by
    rintro rfl
    cases hsalt
  have hkeyNe : key ≠ [] := by
    rintro rfl
    cases hkey
  have hm : memory < 2 ^ 53 := Nat.lt_of_le_of_lt hmemory' (by decide)
  have hp : passes < 2 ^ 53 := Nat.lt_of_le_of_lt hpasses' (by decide)
  have hone : safeInteger ['1'] = some 1 := by decide
  unfold parse
  simp only [Option.bind_eq_bind]
  rw [matchHash_digits (text_ne_nil numerals memory) (text_ne_nil numerals passes)
    (safe_digits numerals hm) (safe_digits numerals hp) hsaltNe hkeyNe, Option.bind_some,
    safeInteger_text (safe_digits numerals hm), if_pos hm, Option.bind_some,
    safeInteger_text (safe_digits numerals hp), if_pos hp, Option.bind_some, hone,
    Option.bind_some]
  dsimp only
  rw [decode_encode, decode_encode, if_neg]
  unfold maxMemoryKib maxPasses maxParallelism at *
  omega

theorem parse_beyond {memory passes : Nat} (hlimit : maxMemoryKib < memory ∨ maxPasses < passes)
    (hsalt : salt ≠ []) (hkey : key ≠ []) :
    parse (encodedHash (numerals.text memory) (numerals.text passes) salt key) = none := by
  unfold parse
  simp only [Option.bind_eq_bind]
  by_cases hdigits : (∀ c ∈ numerals.text memory, c.isDigit = true) ∧
      ∀ c ∈ numerals.text passes, c.isDigit = true
  · rw [matchHash_digits (text_ne_nil numerals memory) (text_ne_nil numerals passes) hdigits.1
      hdigits.2 hsalt hkey, Option.bind_some, safeInteger_text hdigits.1,
      safeInteger_text hdigits.2]
    by_cases hm : memory < 2 ^ 53
    · by_cases hp : passes < 2 ^ 53
      · have hone : safeInteger ['1'] = some 1 := by decide
        rw [if_pos hm, if_pos hp, Option.bind_some, Option.bind_some, hone, Option.bind_some]
        refine if_pos ?_
        omega
      · rw [if_pos hm, if_neg hp]
        rfl
    · rw [if_neg hm]
      rfl
  · rw [matchHash_other (numerals.isNumberChar_of_mem memory) (numerals.isNumberChar_of_mem passes)
      hdigits]
    rfl

/-- The configured value is an integer that the reader accepts. -/
def Parameter.AtMost (bound : Nat) (p : Parameter) : Prop := ∃ n, p = .integer n ∧ n ≤ bound

theorem verify_hash {argon2 : Argon2id} {config : Config} {password encoded : Text} {salt : Salt}
    (h : hash argon2 numerals config password salt = some encoded) :
    verify argon2 password encoded = true ↔
      config.memory.AtMost maxMemoryKib ∧ config.passes.AtMost maxPasses := by
  unfold hash at h
  obtain ⟨key, hderive, rfl⟩ := Option.map_eq_some_iff.mp h
  have hlength := argon2.length _ _ _ key hderive
  obtain ⟨memory, passes, hmemory, hpasses, hlanes, hone, -⟩ :=
    (argon2.succeeds _ _ _).mp (Option.isSome_of_eq_some hderive)
  replace hmemory : config.memory = .integer memory := hmemory
  replace hpasses : config.passes = .integer passes := hpasses
  replace hlength : key.length = 32 := hlength
  replace hlanes : 8 ≤ memory := hlanes
  have hsaltNe : salt.bytes ≠ [] := by
    intro hnil
    have hsalt := salt.length
    rw [hnil] at hsalt
    cases hsalt
  have hkeyNe : key ≠ [] := by
    rintro rfl
    cases hlength
  rw [hmemory, hpasses]
  show verify argon2 password (encodedHash (numerals.text memory) (numerals.text passes) salt.bytes
    key) = true ↔ _
  unfold verify
  by_cases hlimit : memory ≤ maxMemoryKib ∧ passes ≤ maxPasses
  · have hparameters : ArgonParameters.mk (.integer memory) (.integer passes) 1 key.length =
        config.parameters := by
      unfold Config.parameters
      rw [hmemory, hpasses, hlength]
    rw [parse_within hlanes hone hlimit.1 hlimit.2 salt.length hlength]
    dsimp only
    rw [hparameters, hderive]
    simp [Parameter.AtMost, hlimit]
  · rw [parse_beyond (by omega) hsaltNe hkeyNe]
    simp only [Bool.false_eq_true, false_iff]
    rintro ⟨⟨m, hm, hmle⟩, p, hp, hple⟩
    cases hm
    cases hp
    exact hlimit ⟨hmle, hple⟩

/-- A hash that was written is verified when memory and passes are within the limits of the
reader, and never otherwise; the configuration at the time of verification does not matter. -/
theorem hash_verified_iff_within (argon2 : Argon2id) (numerals : Numerals) (config : Config)
    (password encoded : Text) (salt : Salt)
    (h : hash argon2 numerals config password salt = some encoded) :
    verify argon2 password encoded = true ↔
      config.memory.AtMost maxMemoryKib ∧ config.passes.AtMost maxPasses :=
  verify_hash h

end Limits

section Samples

/-- A key of the right length that depends on the parameters. -/
def sampleKey (p : ArgonParameters) : Option Bytes :=
  match p.memory, p.passes with
  | .integer memory, .integer passes =>
      if 8 * p.parallelism ≤ memory ∧ 1 ≤ passes ∧ 1 ≤ p.parallelism then
        some (List.replicate p.tagLength (UInt8.ofNat (memory + passes)))
      else none
  | _, _ => none

theorem sampleKey_isSome (p : ArgonParameters) : (sampleKey p).isSome ↔ p.Supported := by
  obtain ⟨memory, passes, parallelism, tagLength⟩ := p
  unfold sampleKey ArgonParameters.Supported
  cases memory with
  | other => simp
  | integer memory =>
      cases passes with
      | other => simp
      | integer passes =>
          by_cases h : 8 * parallelism ≤ memory ∧ 1 ≤ passes ∧ 1 ≤ parallelism
          · simp [h]
          · simp [h]

def sampleArgon2id : Argon2id where
  derive _ _ p := sampleKey p
  succeeds _ _ p := sampleKey_isSome p
  length _ _ p key hkey := by
    unfold sampleKey at hkey
    split at hkey
    · split_ifs at hkey
      · cases hkey
        exact List.length_replicate
      · cases hkey
    · cases hkey

def sampleNumerals : Numerals where
  text := digits
  isNumberChar_of_mem _ _ hc := isNumberChar_digit (JsonReader.isDigit_of_mem_digits hc)
  safe _ _ := rfl
  unsafe_digits n hn _ := by
    rwa [JsonReader.digits_eq, Nat.ofDigitChars_ten_toDigits]

def sampleSalt : Salt := ⟨List.replicate 16 7, List.length_replicate⟩

theorem sampleHash_isSome (memory passes : Nat) (hmemory : 8 ≤ memory) (hpasses : 1 ≤ passes) :
    ∃ encoded, hash sampleArgon2id sampleNumerals ⟨.integer memory, .integer passes⟩
      "correct".toList sampleSalt = some encoded := by
  obtain ⟨key, hkey⟩ := Option.isSome_iff_exists.mp ((sampleArgon2id.succeeds "correct".toList
    sampleSalt.bytes (Config.parameters ⟨.integer memory, .integer passes⟩)).mpr
      ⟨memory, passes, rfl, rfl, hmemory, hpasses, Nat.le_refl 1⟩)
  unfold hash
  rw [hkey]
  exact ⟨_, rfl⟩

/-- The default configuration. -/
theorem default_hash_verified : ∃ encoded, hash sampleArgon2id sampleNumerals
      ⟨.integer 19456, .integer 2⟩ "correct".toList sampleSalt = some encoded ∧
    (verify sampleArgon2id "correct".toList encoded = true ↔
      (Parameter.integer 19456).AtMost maxMemoryKib ∧ (Parameter.integer 2).AtMost maxPasses) := by
  obtain ⟨encoded, hencoded⟩ := sampleHash_isSome 19456 2 (by omega) (by omega)
  exact ⟨encoded, hencoded, hash_verified_iff_within sampleArgon2id sampleNumerals _ _ _ sampleSalt
    hencoded⟩

/-- With 512 MiB the hash is written and its own password is refused. -/
theorem large_memory_hash_refused : ∃ encoded, hash sampleArgon2id sampleNumerals
      ⟨.integer 524288, .integer 3⟩ "correct".toList sampleSalt = some encoded ∧
    verify sampleArgon2id "correct".toList encoded = false := by
  obtain ⟨encoded, hencoded⟩ := sampleHash_isSome 524288 3 (by omega) (by omega)
  refine ⟨encoded, hencoded, Bool.eq_false_iff.mpr fun htrue => ?_⟩
  obtain ⟨⟨n, hn, hle⟩, -⟩ := (verify_hash hencoded).mp htrue
  cases hn
  exact absurd hle (by decide)

end Samples

end BlocTrust.Identity.PasswordService
