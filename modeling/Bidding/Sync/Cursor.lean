import Bidding.Foundations.Base64
import Bidding.Foundations.JsonAscii

/-!
# Keyset cursors

A page of a table ends in a cursor: the table, the sort column and direction, and the sort value and id of the last row, as
JSON in URL-safe Base64, signed. It is read back as it was made unless it is longer than 2048 characters or has no id; one
made for another table, column or direction is never read.
-/

namespace Bidding.Keyset

open Foundations Foundations.Base64 List

/-- `sort_order`. -/
inductive Direction where
  | asc
  | desc
  deriving DecidableEq

def Direction.text : Direction → String
  | asc => "ASC"
  | desc => "DESC"

theorem Direction.text_injective : Function.Injective Direction.text := by
  intro a b h
  cases a <;> cases b <;> first | rfl | exact absurd h (by decide)

/-- `hashlib.sha256().digest_size`. -/
def digestSize : ℕ := 32

/-- What `hmac.new(key, message, hashlib.sha256).digest()` returns. -/
abbrev Digest := { bytes : List Byte // bytes.length = digestSize }

def payloadText (tableName column : String) (direction : Direction) (value recordId : String) : List Char :=
  '\x7b' :: asciiString "v" ++ ':' :: '2' :: ',' ::
    asciiFields [("table", tableName), ("column", column), ("direction", direction.text),
      ("value", value), ("id", recordId)] ++ ['\x7d']

section

variable (hmac : String → List Char → Digest) (containerText : Value → String)

/-- `_encode_keyset_cursor(…)`; `none` is the `ValueError`. -/
def encodeKeysetCursor (tableName column : String) (direction : Direction) (value : Option String)
    (recordId signingKey : String) : Option String :=
  let payload := utf8 (payloadText tableName column direction (value.getD "") recordId)
  if signingKey = "" then none
  else
    let encodedPayload := encode payload
    let signature := hmac signingKey encodedPayload
    some (String.ofList (encodedPayload ++ '.' :: encode signature.val))

/-- `bool(value)` of a JSON value. -/
def pyTruthy : Value → Bool
  | .null => false
  | .bool b => b
  | .num n => n ≠ 0
  | .str s => s ≠ ""
  | .arr xs => !xs.isEmpty
  | .obj fields => !fields.isEmpty

/-- `str(value)` of a JSON value, a parameter for lists and dictionaries. -/
def pyText : Value → String
  | .null => "None"
  | .bool b => if b then "True" else "False"
  | .num n => toString n
  | .str s => s
  | value => containerText value

/-- `payload.get(key)`: of two fields of one name the later one is kept. -/
def getField (fields : List (String × Value)) (key : String) : Value :=
  (fields.reverse.lookup key).getD .null

/-- What the document says, when it is one for this table, column and direction. -/
def readPayload (tableName column : String) (direction : Direction) : Value → Option (String × String)
  | .obj fields =>
    if getField fields "v" ≠ .num 2 || getField fields "table" ≠ .str tableName
        || getField fields "column" ≠ .str column
        || getField fields "direction" ≠ .str direction.text
        || !pyTruthy (getField fields "id") then none
    else
      let value := getField fields "value"
      some (if pyTruthy value then pyText containerText value else "", pyText containerText (getField fields "id"))
  | _ => none

def decodeKeysetCursor (rawCursor tableName column : String) (direction : Direction)
    (signingKey : String) : Option (String × String) :=
  if rawCursor = "" || 2048 < rawCursor.length || rawCursor.toList.count '.' ≠ 1 then none
  else do
    let encodedPayload := rawCursor.toList.takeWhile (· ≠ '.')
    let encodedSignature := rawCursor.toList.drop (encodedPayload.length + 1)
    let signature ← decode encodedSignature
    if signingKey = "" || signature.length ≠ digestSize then none
    else if encodedPayload.any fun c => 128 ≤ c.toNat then none
    else if signature ≠ (hmac signingKey encodedPayload).val then none
    else
      let payload ← loads (← ofUtf8 (← decode encodedPayload))
      readPayload containerText tableName column direction payload

end

def payloadFields (tableName column : String) (direction : Direction) (value recordId : String) : List (String × Value) :=
  [("v", .num 2), ("table", .str tableName), ("column", .str column),
    ("direction", .str direction.text), ("value", .str value), ("id", .str recordId)]

theorem readValue_two (fuel : ℕ) (rest : List Char) :
    readValue (fuel + 1) ('2' :: ',' :: rest) = some (.num 2, ',' :: rest) := by
  rw [readValue, skipBlanks_cons (by decide)]
  rfl

variable (tableName column : String)

variable (direction : Direction)

variable (value recordId : String)

theorem loads_payloadText : loads (payloadText tableName column direction value recordId) =
    some (.obj (payloadFields tableName column direction value recordId)) := by
  have hfields := fun k => readFields_asciiFields [("table", tableName), ("column", column),
    ("direction", direction.text), ("value", value), ("id", recordId)] (by simp) (k + 6)
    (by simp only [length_cons, length_nil]; omega) []
  have htext : payloadText tableName column direction value recordId = '\x7b' :: (asciiString "v" ++ ':' :: '2' :: ',' ::
        (asciiFields [("table", tableName), ("column", column), ("direction", direction.text),
          ("value", value), ("id", recordId)] ++ ['\x7d'])) := by
    simp [payloadText]
  generalize hrest : asciiFields [("table", tableName), ("column", column),
    ("direction", direction.text), ("value", value), ("id", recordId)] ++ ['\x7d'] = rest
    at htext hfields
  rw [htext]
  refine loads_object "v" _ ?_
  obtain ⟨k, hk⟩ : ∃ k, (asciiString "v" ++ ':' :: '2' :: ',' :: rest).length + 1 = k + 7 := by
    refine ⟨(asciiString "v" ++ ':' :: '2' :: ',' :: rest).length - 6, ?_⟩
    simp only [length_append, length_cons, length_asciiString]
    have : asciiLength "v" = 1 := by decide
    omega
  rw [hk, readFields_cons (k + 6) "v" (readValue_two (k + 5) rest), skipBlanks_cons (by decide)]
  simp only [hfields, Option.map_some]
  rfl

def payloadFrame : ℕ := 64

theorem length_payloadText : (payloadText tableName column direction value recordId).length =
    payloadFrame + (asciiLength tableName + asciiLength column + asciiLength direction.text +
      asciiLength value + asciiLength recordId) := by
  have hkeys : asciiLength "v" = 1 ∧ asciiLength "table" = 5 ∧ asciiLength "column" = 6 ∧
      asciiLength "direction" = 9 ∧ asciiLength "value" = 5 ∧ asciiLength "id" = 2 := by decide
  obtain ⟨hv, htable, hcolumn, hdirection, hvalue, hid⟩ := hkeys
  simp only [payloadText, asciiFields, length_append, length_cons, length_nil,
    length_asciiString, hv, htable, hcolumn, hdirection, hvalue, hid, payloadFrame]
  omega

theorem payloadText_lt : ∀ c ∈ payloadText tableName column direction value recordId, c.toNat < 128 := by
  intro c hc
  unfold payloadText at hc
  rcases mem_append.mp hc with hc | hc
  · rcases mem_append.mp hc with hc | hc
    · rcases mem_cons.mp hc with rfl | hc
      · decide
      · exact asciiString_lt "v" c hc
    · rcases mem_cons.mp hc with rfl | hc
      · decide
      rcases mem_cons.mp hc with rfl | hc
      · decide
      rcases mem_cons.mp hc with rfl | hc
      · decide
      exact asciiFields_lt _ c hc
  · rw [mem_singleton.mp hc]
    decide

/-! ## Reading a cursor back -/

section

variable (hmac : String → List Char → Digest) (containerText : Value → String)
  (tableName column : String) (direction : Direction) (value recordId : String)

variable (tableName' column' : String)

theorem readPayload_payloadFields (direction' : Direction) : readPayload containerText tableName' column' direction'
      (.obj (payloadFields tableName column direction value recordId)) =
    if (tableName', column', direction') = (tableName, column, direction) ∧ recordId ≠ "" then
      some (value, recordId)
    else none := by
  have hv : getField (payloadFields tableName column direction value recordId) "v" = .num 2 := rfl
  have htable : getField (payloadFields tableName column direction value recordId) "table" = .str tableName := rfl
  have hcolumn : getField (payloadFields tableName column direction value recordId) "column" = .str column := rfl
  have hdirection : getField (payloadFields tableName column direction value recordId) "direction" = .str direction.text := rfl
  have hvalue : getField (payloadFields tableName column direction value recordId) "value" = .str value := rfl
  have hid : getField (payloadFields tableName column direction value recordId) "id" = .str recordId := rfl
  have htext : (if pyTruthy (.str value) then pyText containerText (.str value) else "") = value := by
    by_cases hempty : value = ""
    · simp [pyTruthy, hempty]
    · simp [pyTruthy, pyText, hempty]
  simp only [readPayload, hv, htable, hcolumn, hdirection, hvalue, hid, htext]
  by_cases hplace : (tableName', column', direction') = (tableName, column, direction)
  · obtain ⟨rfl, hrest⟩ := Prod.mk.inj hplace
    obtain ⟨rfl, rfl⟩ := Prod.mk.inj hrest
    by_cases hempty : recordId = ""
    · simp [pyTruthy, hempty]
    · simp [pyTruthy, pyText, hempty]
  · have hother : ¬((tableName', column', direction') = (tableName, column, direction) ∧
        recordId ≠ "") := fun h => hplace h.1
    rw [if_neg hother, if_pos]
    by_cases htables : tableName = tableName'
    · by_cases hcolumns : column = column'
      · have hdirections : direction.text ≠ direction'.text := by
          intro h
          apply hplace
          rw [htables, hcolumns, Direction.text_injective h]
        simp [hdirections]
      · simp [hcolumns]
    · simp [htables]

variable {hmac containerText tableName column direction value recordId}

variable {stored : Option String} {signingKey : String} {text : List Char} {cursor : String}

theorem encodeKeysetCursor_eq (hkey : signingKey ≠ "") :
    encodeKeysetCursor hmac tableName column direction stored recordId signingKey = some (String.ofList
        (encode (utf8 (payloadText tableName column direction (stored.getD "") recordId)) ++ '.' ::
          encode (hmac signingKey (encode (utf8 (payloadText tableName column direction
            (stored.getD "") recordId)))).val)) := by
  unfold encodeKeysetCursor
  rw [if_neg hkey]

theorem length_cursor (htext : ∀ c ∈ text, c.toNat < 128) (digest : Digest) :
    (String.ofList (encode (utf8 text) ++ '.' :: encode digest.val)).length = (4 * text.length + 2) / 3 + 44 := by
  have hdigest : digest.val.length = 32 := digest.property
  rw [String.length_ofList, length_append, length_cons, length_encode, length_encode, length_utf8 htext, hdigest]

theorem dot_not_mem_encode (bytes : List Byte) : '.' ∉ encode bytes := by
  have hno : ∀ n < 64, '.' ≠ symbol n := by decide
  intro h
  obtain ⟨n, hn, hsymbol⟩ := symbol_of_mem_encode bytes '.' h
  exact hno n hn hsymbol

theorem decodeKeysetCursor_signed {payload : Value}
    (hkey : signingKey ≠ "") (hne : text ≠ []) (htext : ∀ c ∈ text, c.toNat < 128)
    (hloads : loads text = some payload) : decodeKeysetCursor hmac containerText (String.ofList (encode (utf8 text) ++ '.' ::
          encode (hmac signingKey (encode (utf8 text))).val)) tableName column direction signingKey =
      if (4 * text.length + 2) / 3 + 44 ≤ 2048 then
        readPayload containerText tableName column direction payload
      else none := by
  generalize hdigest : hmac signingKey (encode (utf8 text)) = digest
  have hlength := length_cursor htext digest
  have hcount : (encode (utf8 text) ++ '.' :: encode digest.val).count '.' = 1 := by
    rw [count_append, count_cons_self, count_eq_zero.mpr (dot_not_mem_encode _),
      count_eq_zero.mpr (dot_not_mem_encode _)]
  have hfront : (encode (utf8 text) ++ '.' :: encode digest.val).takeWhile (· ≠ '.') = encode (utf8 text) := by
    rw [takeWhile_append_of_pos, takeWhile_cons_of_neg (by simp), append_nil]
    intro c hc
    simpa using fun h : c = '.' => dot_not_mem_encode _ (h ▸ hc)
  have hback : (encode (utf8 text) ++ '.' :: encode digest.val).drop ((encode (utf8 text)).length + 1) = encode digest.val := by
    rw [drop_append]
    simp
  have hascii : (encode (utf8 text)).any (fun c => decide (128 ≤ c.toNat)) = false := by
    rw [any_eq_false]
    intro c hc
    obtain ⟨n, hn, rfl⟩ := symbol_of_mem_encode _ c hc
    have hsymbols : ∀ n < 64, (symbol n).toNat < 128 := by decide
    simpa using hsymbols n hn
  have hdigestNe : digest.val ≠ [] := by
    intro h
    have := digest.property
    rw [h] at this
    cases this
  have hbytesNe : utf8 text ≠ [] := by
    intro h
    have := length_utf8 htext
    rw [h] at this
    exact hne (length_eq_zero_iff.mp this.symm)
  have hempty : String.ofList (encode (utf8 text) ++ '.' :: encode digest.val) ≠ "" := by
    intro h
    rw [h] at hlength
    simp at hlength
  unfold decodeKeysetCursor
  simp only [hlength, String.toList_ofList, hcount, hfront, hback, hempty,
    decode_encode hdigestNe, digest.property, hkey, hascii, hdigest, decode_encode hbytesNe,
    ofUtf8_utf8, hloads, Option.bind_eq_bind, Option.bind_some, ne_eq, not_true_eq_false,
    decide_false, Bool.false_or, Bool.or_false, if_false, decide_eq_true_eq,
    Bool.false_eq_true]
  by_cases hfits : (4 * text.length + 2) / 3 + 44 ≤ 2048
  · rw [if_neg (by omega), if_pos hfits]
  · rw [if_pos (by omega), if_neg hfits]

theorem decodeKeysetCursor_encode (direction' : Direction)
    (hcursor : encodeKeysetCursor hmac tableName column direction stored recordId signingKey = some cursor) :
    decodeKeysetCursor hmac containerText cursor tableName' column' direction' signingKey =
      if (tableName', column', direction') = (tableName, column, direction) ∧ recordId ≠ "" ∧
          asciiLength tableName + asciiLength column + asciiLength direction.text +
            asciiLength (stored.getD "") + asciiLength recordId ≤ 1439 then
        some (stored.getD "", recordId)
      else none := by
  have hkey : signingKey ≠ "" := by
    intro h
    rw [encodeKeysetCursor, if_pos h] at hcursor
    cases hcursor
  rw [encodeKeysetCursor_eq hkey] at hcursor
  rw [← Option.some.inj hcursor, decodeKeysetCursor_signed hkey (by simp [payloadText])
    (payloadText_lt _ _ _ _ _) (loads_payloadText _ _ _ _ _), readPayload_payloadFields, length_payloadText, payloadFrame]
  by_cases hfits : asciiLength tableName + asciiLength column + asciiLength direction.text +
      asciiLength (stored.getD "") + asciiLength recordId ≤ 1439
  · rw [if_pos (by omega)]
    simp only [hfits, and_true]
  · rw [if_neg (by omega)]
    simp only [hfits, and_false, if_false]

theorem pyStrip_cursor (hcursor : encodeKeysetCursor hmac tableName column direction stored recordId signingKey =
    some cursor) : pyStrip cursor = cursor ∧ cursor ≠ "" := by
  have hkey : signingKey ≠ "" := by
    intro h
    rw [encodeKeysetCursor, if_pos h] at hcursor
    cases hcursor
  rw [encodeKeysetCursor_eq hkey] at hcursor
  rw [← Option.some.inj hcursor]
  constructor
  · apply pyStrip_eq_self
    have hsymbols : ∀ n < 64, isPySpace (symbol n) = false := by decide
    have hencoded : ∀ bytes, ∀ c ∈ encode bytes, isPySpace c = false := by
      intro bytes c hc
      obtain ⟨n, hn, rfl⟩ := symbol_of_mem_encode bytes c hc
      exact hsymbols n hn
    intro c hc
    rw [String.toList_ofList] at hc
    rcases mem_append.mp hc with hc | hc
    · exact hencoded _ c hc
    · rcases mem_cons.mp hc with rfl | hc
      · decide
      · exact hencoded _ c hc
  · intro h
    have hlength := congrArg String.length h
    simp at hlength

end

end Bidding.Keyset
