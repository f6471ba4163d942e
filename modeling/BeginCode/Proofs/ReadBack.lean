import BeginCode.Proofs.InputLocality
import BeginCode.Proofs.Integers
import BeginCode.Proofs.Stores

/-!
# What is displayed can be read back

A line of input that holds the texts of some values, with commas between them, gives these values
back. The kind of a value has to show in its text: floats are left out, and so are characters and
texts that would count as something else or that a comma or a blank would take apart.
-/

namespace BeginCode

/-! ### Text as bytes -/

namespace Console

theorem decode?_utf8 (text : String) : decode? (utf8 text) = some text := by
  have hbytes : (⟨(utf8 text).toArray⟩ : ByteArray) = text.toByteArray := by
    unfold utf8
    rw [Array.toArray_toList]
  rw [decode?, hbytes, String.fromUTF8?, dif_pos text.isValidUTF8]
  rfl

theorem utf8_append (front back : String) : utf8 (front ++ back) = utf8 front ++ utf8 back := by
  simp [utf8]

theorem utf8_eq_flatMap (text : String) :
    utf8 text = text.toList.flatMap String.utf8EncodeChar := by
  rw [utf8, ← String.utf8Encode_toList, List.utf8Encode]
  simp

/-- The bytes of a character beyond ASCII are all above it. -/
theorem lineEnd_not_mem_utf8EncodeChar {c : Char} (hc : c ≠ '\n') :
    (10 : UInt8) ∉ String.utf8EncodeChar c := by
  have hval : c.val.toNat ≠ 10 := by
    intro heq
    apply hc
    apply Char.ext
    apply UInt32.toNat_inj.mp
    exact heq
  have hbyte (n : Nat) (hn : n % 256 ≠ 10) : (10 : UInt8) ≠ UInt8.ofNat n := by
    intro heq
    apply hn
    simpa using (congrArg UInt8.toNat heq).symm
  unfold String.utf8EncodeChar
  dsimp only
  split_ifs <;> simp only [List.mem_cons, List.not_mem_nil, or_false, not_or]
  · exact hbyte _ (by omega)
  · exact ⟨hbyte _ (by omega), hbyte _ (by omega)⟩
  · exact ⟨hbyte _ (by omega), hbyte _ (by omega), hbyte _ (by omega)⟩
  · exact ⟨hbyte _ (by omega), hbyte _ (by omega), hbyte _ (by omega), hbyte _ (by omega)⟩

theorem isLine_utf8 {text : String} (htext : '\n' ∉ text.toList) :
    IsLine (utf8 (text ++ "\n")) := by
  refine ⟨utf8 text, utf8_append text "\n", fun hmem => ?_⟩
  rw [utf8_eq_flatMap] at hmem
  obtain ⟨c, hc, hbyte⟩ := List.mem_flatMap.mp hmem
  refine lineEnd_not_mem_utf8EncodeChar ?_ hbyte
  rintro rfl
  exact htext hc

end Console

/-! ### Fields of a line -/

namespace Text

/-- No blank stands at either end. -/
structure Unpadded (text : List Char) : Prop where
  head : ∀ c ∈ text.head?, isBlank c = false
  last : ∀ c ∈ text.getLast?, isBlank c = false

/-- A text that is one field of a line: commas and line ends would cut it. -/
structure IsField (text : List Char) : Prop extends Unpadded text where
  comma : ',' ∉ text
  lineEnd : '\n' ∉ text

/-- Fields with commas between them, and any number of spaces around each comma. -/
inductive Joined : List (List Char) → List Char → Prop where
  | last (field : List Char) : Joined [field] field
  | more (field : List Char) (before after : Nat) {others : List (List Char)} {line : List Char}
      (hothers : Joined others line) :
      Joined (field :: others)
        (field ++ List.replicate before ' ' ++ ',' :: (List.replicate after ' ' ++ line))

theorem dropWhile_eq_self {p : Char → Bool} {text : List Char}
    (hhead : ∀ c ∈ text.head?, p c = false) : text.dropWhile p = text := by
  cases text with
  | nil => rfl
  | cons c text => rw [List.dropWhile_cons, hhead c rfl, if_neg Bool.false_ne_true]

theorem dropEnd_append {p : Char → Bool} {text dropped : List Char}
    (hdropped : ∀ c ∈ dropped, p c = true) (hlast : ∀ c ∈ text.getLast?, p c = false) :
    dropEnd p (text ++ dropped) = text := by
  have hreversed : ∀ c ∈ dropped.reverse, p c = true := by
    intro c hmem
    exact hdropped c (List.mem_reverse.mp hmem)
  have hstop : ∀ c ∈ text.reverse.head?, p c = false := by
    rw [List.head?_reverse]
    exact hlast
  rw [dropEnd, List.reverse_append, List.dropWhile_append_of_pos hreversed,
    dropWhile_eq_self hstop, List.reverse_reverse]

theorem isBlank_of_mem_replicate {count : Nat} {c : Char} (hmem : c ∈ List.replicate count ' ') :
    isBlank c = true := by
  rw [List.eq_of_mem_replicate hmem]
  decide

theorem trim_padded {text : List Char} (htext : Unpadded text) (before after : Nat) :
    trim (List.replicate before ' ' ++ text ++ List.replicate after ' ') = text := by
  have hbefore : ∀ c ∈ List.replicate before ' ', isBlank c = true := fun c =>
    isBlank_of_mem_replicate
  have hafter : ∀ c ∈ List.replicate after ' ', isBlank c = true := fun c =>
    isBlank_of_mem_replicate
  rw [trim, List.append_assoc, List.dropWhile_append_of_pos hbefore]
  cases text with
  | nil =>
      rw [List.nil_append, List.dropWhile_eq_nil_iff.mpr hafter]
      rfl
  | cons c text =>
      have hstop : ∀ d ∈ (c :: text ++ List.replicate after ' ').head?, isBlank d = false :=
        htext.head
      rw [dropWhile_eq_self hstop]
      exact dropEnd_append hafter htext.last

theorem splitAt_of_not_mem {separator : Char} {text : List Char} (htext : separator ∉ text) :
    splitAt separator text = [text] := by
  induction text with
  | nil => rfl
  | cons c text ih =>
      rw [List.mem_cons, not_or] at htext
      rw [splitAt, if_neg (Ne.symm htext.1), ih htext.2]

/-- A joined line is cut back into its fields, also after further spaces. -/
theorem Joined.map_trim_splitAt {fields : List (List Char)} {line : List Char}
    (hjoined : Joined fields line) (hfields : ∀ field ∈ fields, IsField field) (leading : Nat) :
    (splitAt ',' (List.replicate leading ' ' ++ line)).map trim = fields := by
  have hspaces (count : Nat) : ',' ∉ List.replicate count ' ' := by
    intro hmem
    cases List.eq_of_mem_replicate hmem
  induction hjoined generalizing leading with
  | last field =>
      have hfield := hfields field (List.mem_singleton_self field)
      have hcomma : ',' ∉ List.replicate leading ' ' ++ field := by
        rw [List.mem_append, not_or]
        exact ⟨hspaces leading, hfield.comma⟩
      rw [splitAt_of_not_mem hcomma, List.map_singleton]
      have htrim := trim_padded hfield.toUnpadded leading 0
      rw [List.replicate_zero, List.append_nil] at htrim
      rw [htrim]
  | @more field before after others line hothers ih =>
      have hfield := hfields field List.mem_cons_self
      have hcomma : ',' ∉ List.replicate leading ' ' ++ field ++ List.replicate before ' ' := by
        rw [List.mem_append, List.mem_append, not_or, not_or]
        exact ⟨⟨hspaces leading, hfield.comma⟩, hspaces before⟩
      have hcut := ih (fun other hmem => hfields other (List.mem_cons_of_mem field hmem)) after
      rw [← List.append_assoc, ← List.append_assoc, splitAt_append_separator,
        splitAt_of_not_mem hcomma, List.map_append, hcut, List.map_singleton,
        trim_padded hfield.toUnpadded, List.singleton_append]

/-- The last character of a joined line is one of its last field or stands around a comma. -/
theorem Joined.isBlank_getLast? {fields : List (List Char)} {line : List Char}
    (hjoined : Joined fields line) (hfields : ∀ field ∈ fields, IsField field) {c : Char}
    (hlast : c ∈ line.getLast?) : isBlank c = false ∨ c = ' ' := by
  induction hjoined with
  | last field => exact .inl ((hfields field (List.mem_singleton_self field)).last c hlast)
  | @more field before after others line hothers ih =>
      rw [List.getLast?_append, List.getLast?_cons, Option.some_or, List.getLast?_append] at hlast
      cases hline : line.getLast? with
      | some last =>
          rw [hline] at hlast
          obtain rfl : last = c := Option.some.inj hlast
          exact ih (fun other hmem => hfields other (List.mem_cons_of_mem field hmem)) hline
      | none =>
          rw [hline, Option.none_or] at hlast
          cases hspaces : (List.replicate after ' ').getLast? with
          | some space =>
              rw [hspaces] at hlast
              obtain rfl : space = c := Option.some.inj hlast
              exact .inr (List.eq_of_mem_replicate (List.mem_of_getLast? hspaces))
          | none =>
              rw [hspaces] at hlast
              obtain rfl : ',' = c := Option.some.inj hlast
              exact .inl (by decide)

theorem Joined.lineEnd_not_mem {fields : List (List Char)} {line : List Char}
    (hjoined : Joined fields line) (hfields : ∀ field ∈ fields, IsField field) : '\n' ∉ line := by
  have hspaces (count : Nat) : '\n' ∉ List.replicate count ' ' := by
    intro hmem
    cases List.eq_of_mem_replicate hmem
  induction hjoined with
  | last field => exact (hfields field (List.mem_singleton_self field)).lineEnd
  | @more field before after others line hothers ih =>
      have hothers := ih fun other hmem => hfields other (List.mem_cons_of_mem field hmem)
      simp only [List.mem_append, List.mem_cons, not_or]
      exact ⟨⟨(hfields field List.mem_cons_self).lineEnd, hspaces before⟩, by decide,
        hspaces after, hothers⟩

/-- A joined line has the fields that it was joined from. -/
theorem Joined.fields_eq {fields : List (List Char)} {line : List Char}
    (hjoined : Joined fields line) (hfields : ∀ field ∈ fields, IsField field) :
    Text.fields (line ++ ['\n']) = fields := by
  have hline : dropLineEnd (line ++ ['\n']) = line := by
    apply dropEnd_append
    · intro c hmem
      rw [List.mem_singleton.mp hmem]
      rfl
    · intro c hmem
      rcases hjoined.isBlank_getLast? hfields hmem with hblank | rfl
      · rw [Bool.or_eq_false_iff, decide_eq_false_iff_not, decide_eq_false_iff_not]
        constructor
        · rintro rfl
          cases hblank
        · rintro rfl
          cases hblank
      · rfl
  rw [Text.fields, hline]
  exact hjoined.map_trim_splitAt hfields 0

end Text

/-! ### Values as fields -/

namespace Value

/-- A text that counts as a number. -/
def NumberLike (text : List Char) : Prop :=
  Number.readInt64? text ≠ none ∨
    text.any Number.isDigit = true ∧ Number.readFloat? text ≠ none

/-- The kind of the value shows in its text, and the text is one field. -/
def ScansBack : Value → Prop
  | integer _ | bool _ => True
  | char c => Text.isBlank c = false ∧ c ≠ ',' ∧ Number.isDigit c = false
  | text s =>
      Text.IsField s.toList ∧ s.length ≠ 1 ∧ ¬NumberLike s.toList ∧
        s ∉ ["TRUE", "\"TRUE\"", "FALSE", "\"FALSE\""]
  | nil | float _ => False

theorem numberOfField?_eq_none {field : List Char} (hfield : ¬NumberLike field) :
    numberOfField? field = none := by
  rw [NumberLike, not_or, not_and, not_not, not_not] at hfield
  rw [numberOfField?, hfield.1]
  by_cases hdigit : field.any Number.isDigit = true
  · rw [hfield.2 hdigit]
    simp
  · simp [hdigit]

theorem not_numberLike {text : List Char} (htext : text.any Number.isDigit = false) :
    ¬NumberLike text := by
  rintro (hinteger | ⟨hdigit, -⟩)
  · exact hinteger (Number.readInt64?_eq_none htext)
  · rw [htext] at hdigit
    cases hdigit

/-- A field of several characters, or of none, that is not a number. -/
theorem ofField_eq_wordOfField {word : String} (hnumber : ¬NumberLike word.toList)
    (hlength : word.length ≠ 1) : ofField word.toList = wordOfField word := by
  unfold ofField
  rw [numberOfField?_eq_none hnumber]
  dsimp only
  split
  · rename_i c hword
    rw [← String.length_toList, hword] at hlength
    exact absurd rfl hlength
  · rw [String.ofList_toList]

/-- The text of such a value is taken for that value. -/
theorem ofField_display {value : Value} (hvalue : value.ScansBack) :
    ofField value.display.toList = value := by
  cases value with
  | nil => cases hvalue
  | float x => cases hvalue
  | integer n => simp only [display, ofField, numberOfField?, Number.readInt64?_integerText]
  | bool b =>
      cases b with
      | true => exact ofField_eq_wordOfField (not_numberLike (by decide)) (by decide)
      | false => exact ofField_eq_wordOfField (not_numberLike (by decide)) (by decide)
  | char c =>
      have hnumber : ¬NumberLike [c] := by
        apply not_numberLike
        rw [List.any_cons, hvalue.2.2]
        rfl
      rw [display, String.toList_singleton, ofField, numberOfField?_eq_none hnumber]
  | text s =>
      obtain ⟨-, hlength, hnumber, hword⟩ := hvalue
      rw [display, ofField_eq_wordOfField hnumber hlength]
      simp only [List.mem_cons, List.not_mem_nil, or_false, not_or] at hword
      simp [wordOfField, hword]

/-- A text without blanks and commas is a field. -/
theorem isField_of_any {text : List Char}
    (htext : text.any (fun c => Text.isBlank c || c == ',') = false) : Text.IsField text := by
  have hchar {c : Char} (hmem : c ∈ text) : Text.isBlank c = false ∧ c ≠ ',' := by
    simpa using List.any_eq_false.mp htext c hmem
  refine ⟨⟨fun c hmem => (hchar (List.mem_of_mem_head? hmem)).1,
    fun c hmem => (hchar (List.mem_of_getLast? hmem)).1⟩, fun hmem => (hchar hmem).2 rfl, ?_⟩
  intro hmem
  cases (hchar hmem).1

theorem isBlank_eq_false_of_isDigit {c : Char} (hdigit : Number.isDigit c = true) :
    Text.isBlank c = false := by
  rw [Number.isDigit, Bool.and_eq_true, decide_eq_true_eq, decide_eq_true_eq] at hdigit
  have hlow : 48 ≤ c.toNat := hdigit.1
  have hhigh : c.toNat ≤ 57 := hdigit.2
  simp only [Text.isBlank, Text.blankRanges, List.any_cons, List.any_nil, Bool.or_false,
    Bool.or_eq_false_iff, Bool.and_eq_false_iff, decide_eq_false_iff_not]
  omega

theorem isField_display {value : Value} (hvalue : value.ScansBack) :
    Text.IsField value.display.toList := by
  cases value with
  | nil => cases hvalue
  | float x => cases hvalue
  | integer n =>
      apply isField_of_any
      rw [List.any_eq_false]
      intro c hmem
      rcases Number.mem_integerText hmem with hdigit | rfl
      · have hcomma : c ≠ ',' := by
          rintro rfl
          cases hdigit
        simp [isBlank_eq_false_of_isDigit hdigit, hcomma]
      · decide
  | bool b =>
      cases b with
      | true => exact isField_of_any (by decide)
      | false => exact isField_of_any (by decide)
  | char c =>
      apply isField_of_any
      rw [display, String.toList_singleton]
      simp [hvalue.1, hvalue.2.1]
  | text s => exact hvalue.1

/-- The texts of values, joined in a line, are taken for these values. -/
theorem map_ofField_fields {values : List Value} {line : List Char}
    (hvalues : ∀ value ∈ values, value.ScansBack)
    (hjoined : Text.Joined (values.map fun value => value.display.toList) line) :
    '\n' ∉ line ∧ (Text.fields (line ++ ['\n'])).map ofField = values := by
  have hfields : ∀ field ∈ values.map fun value => value.display.toList, Text.IsField field := by
    intro field hmem
    obtain ⟨value, hvalue, rfl⟩ := List.mem_map.mp hmem
    exact isField_display (hvalues value hvalue)
  refine ⟨hjoined.lineEnd_not_mem hfields, ?_⟩
  calc (Text.fields (line ++ ['\n'])).map ofField
    _ = values.map (ofField ∘ fun value => value.display.toList) := by
        rw [hjoined.fields_eq hfields, List.map_map]
    _ = values.map id := List.map_congr_left fun value hmem => ofField_display (hvalues value hmem)
    _ = values := List.map_id values

end Value

/-! ### Reading a line into variables -/

namespace Exec

/-- The variable is declared with the type of the value. -/
def Suits (environment : Environment) (target : Token) (value : Value) : Prop :=
  ∃ binding, environment.find? target.lexeme = some binding ∧ value.type? = some binding.type

theorem Suits.store {environment : Environment} {target : Token} {value : Value}
    (hsuits : Suits environment target value) (name : String) (stored : Value) :
    Suits (environment.store name stored) target value := by
  obtain ⟨binding, hfind, htype⟩ := hsuits
  by_cases hname : target.lexeme = name
  · refine ⟨{ binding with value := stored }, ?_, htype⟩
    rw [Environment.find?_store, if_pos hname, ← hname, hfind]
    rfl
  · refine ⟨binding, ?_, htype⟩
    rw [Environment.find?_store, if_neg hname, hfind]

theorem run_assignField {world : World} {target : Token} {field : List Char}
    (hsuits : Suits world.environment target (Value.ofField field)) (line : Nat) :
    (assignField target field line).run world =
      .ok () { world with
        environment := world.environment.store target.lexeme (Value.ofField field) } := by
  obtain ⟨binding, hfind, htype⟩ := hsuits
  have hadmits := ValueType.admits_iff.mpr htype
  have hlookup : (ofEval (Eval.lookup target)).run world = .ok binding world := by
    rw [run_ofEval, Eval.run_lookup, Environment.lookup, hfind]
  have hassign : (ofEval (Eval.assign target (Value.ofField field))).run world =
      .ok () { world with
        environment := world.environment.store target.lexeme (Value.ofField field) } := by
    rw [run_ofEval, Eval.run_assign, Environment.assign_of_some hfind, if_pos hadmits]
  rw [assignField, EStateM.run_bind, hlookup]
  dsimp only
  rw [if_pos hadmits, hassign]

theorem run_assignFields {world : World} {targets : List Token} {fields : List (List Char)}
    (hsuits : List.Forall₂ (fun target field =>
      Suits world.environment target (Value.ofField field)) targets fields) (line : Nat) :
    (assignFields line (targets.zip fields)).run world =
      .ok () { world with
        environment := world.environment.storeAll
          ((targets.map Token.lexeme).zip (fields.map Value.ofField)) } := by
  induction targets generalizing world fields with
  | nil => rfl
  | cons target targets ih =>
      obtain ⟨field, fields, hfirst, hothers, rfl⟩ := List.forall₂_cons_left_iff.mp hsuits
      rw [List.zip_cons_cons, assignFields, EStateM.run_bind, run_assignField hfirst]
      exact ih (hothers.imp fun _ _ hsuits => hsuits.store _ _)

/-- The values of a line that suit their targets are all stored. -/
theorem run_scan {world : World} {targets : List Token} {text : String} {values : List Value}
    {console : Console} (htake : world.console.takeLine = (Console.utf8 text, console))
    (hvalues : (Text.fields text.toList).map Value.ofField = values)
    (hsuits : List.Forall₂ (Suits world.environment) targets values) (line : Nat) :
    (scan targets line).run world =
      .ok () ⟨world.environment.storeAll ((targets.map Token.lexeme).zip values), console⟩ := by
  have hlength : (Text.fields text.toList).length = targets.length := by
    rw [hsuits.length_eq, ← hvalues, List.length_map]
  rw [scan, EStateM.run_bind, run_takeLine, htake]
  dsimp only
  rw [Console.decode?_utf8]
  dsimp only
  rw [if_pos hlength]
  rw [← hvalues, List.forall₂_map_right_iff] at hsuits
  rw [← hvalues]
  exact @run_assignFields { world with console } _ _ hsuits line

theorem map_fst_zip_lexeme {targets : List Token} {values : List Value}
    (hlength : targets.length = values.length) :
    ((targets.map Token.lexeme).zip values).map Prod.fst = targets.map Token.lexeme := by
  apply List.map_fst_zip
  rw [List.length_map, hlength]

/-- Of variables with different names, each one then holds its own value. -/
theorem Suits.storeAll {environment : Environment} {targets : List Token} {values : List Value}
    (hdistinct : (targets.map Token.lexeme).Nodup)
    (hsuits : List.Forall₂ (Suits environment) targets values) :
    List.Forall₂ (fun target value => ∃ binding,
      environment.find? target.lexeme = some binding ∧
        (environment.storeAll ((targets.map Token.lexeme).zip values)).find? target.lexeme =
          some { binding with value }) targets values := by
  rw [List.forall₂_iff_zip] at hsuits ⊢
  obtain ⟨hlength, hsuits⟩ := hsuits
  refine ⟨hlength, fun {target value} hmem => ?_⟩
  obtain ⟨binding, hfind, -⟩ := hsuits hmem
  have hpair : (target.lexeme, value) ∈ (targets.map Token.lexeme).zip values := by
    rw [List.zip_map_left]
    exact List.mem_map.mpr ⟨(target, value), hmem, rfl⟩
  rw [← map_fst_zip_lexeme hlength] at hdistinct
  refine ⟨binding, hfind, ?_⟩
  rw [Environment.find?_storeAll_of_mem hdistinct hpair, hfind]
  rfl

/-- A line with the texts of values that scan back is read into variables of their types: each
variable gets its value, and no other binding of any scope changes. -/
theorem scan_displayed {world : World} {targets : List Token} {values : List Value}
    {line : String} {rest : List UInt8} (hvalues : ∀ value ∈ values, value.ScansBack)
    (hdistinct : (targets.map Token.lexeme).Nodup)
    (hsuits : List.Forall₂ (Suits world.environment) targets values)
    (hjoined : Text.Joined (values.map fun value => value.display.toList) line.toList)
    (hunread : world.console.unread = Console.utf8 (line ++ "\n") ++ rest) (number : Nat) :
    ∃ after, (scan targets number).run world = .ok () after ∧
      after.console = { world.console with unread := rest } ∧
      List.Forall₂ (fun target value => ∃ binding,
        world.environment.find? target.lexeme = some binding ∧
          after.environment.find? target.lexeme = some { binding with value }) targets values ∧
      after.environment.depth = world.environment.depth ∧
      ∀ level name,
        (name ∈ targets.map Token.lexeme → world.environment.levelOf? name ≠ some level) →
          after.environment.bindingAt? level name = world.environment.bindingAt? level name := by
  obtain ⟨hlineEnd, hread⟩ := Value.map_ofField_fields hvalues hjoined
  have htake : world.console.takeLine =
      (Console.utf8 (line ++ "\n"), { world.console with unread := rest }) := by
    rw [← Console.takeLine_of_isLine (Console.isLine_utf8 hlineEnd), ← hunread]
  have htext : (line ++ "\n").toList = line.toList ++ ['\n'] := String.toList_append
  rw [← htext] at hread
  refine ⟨_, run_scan htake hread hsuits number, rfl, Suits.storeAll hdistinct hsuits,
    Environment.depth_storeAll _ _, fun level name hother => ?_⟩
  apply Environment.bindingAt?_storeAll
  rwa [map_fst_zip_lexeme hsuits.length_eq]

/-- The inner scope hides a variable of the outer one. -/
def awaiting : World where
  environment := ⟨[⟨[("n", ⟨.int, .nil⟩), ("c", ⟨.char, .nil⟩)]⟩,
    ⟨[("n", ⟨.string, .text "kept"⟩), ("s", ⟨.string, .nil⟩), ("b", ⟨.bool, .nil⟩)]⟩]⟩
  console := ⟨Console.utf8 "-9223372036854775808 , +,a b,  FALSE\n" ++ [255], [], none⟩

def awaited : List Token := ["n", "c", "s", "b"].map fun name => ⟨.identifier, name, 3, none⟩

/-- The smallest integer, a sign on its own and a text with a blank inside are read back. -/
theorem scan_displayed_awaiting :
    ∃ after, (scan awaited 3).run awaiting = .ok () after ∧ after.console.unread = [255] ∧
      after.environment.find? "n" = some ⟨.int, .integer Int64.minValue⟩ ∧
      after.environment.find? "c" = some ⟨.char, .char '+'⟩ ∧
      after.environment.find? "s" = some ⟨.string, .text "a b"⟩ ∧
      after.environment.find? "b" = some ⟨.bool, .bool false⟩ ∧
      after.environment.bindingAt? 0 "n" = some ⟨.string, .text "kept"⟩ := by
  let values := [Value.integer Int64.minValue, .char '+', .text "a b", .bool false]
  have hvalues : ∀ value ∈ values, value.ScansBack := by
    have htext : (Value.text "a b").ScansBack :=
      ⟨⟨⟨by rintro c ⟨⟩; decide, by rintro c ⟨⟩; decide⟩, by decide, by decide⟩, by decide,
        Value.not_numberLike (by decide), by decide⟩
    simp only [values, List.forall_mem_cons]
    exact ⟨trivial, ⟨by decide, by decide, by decide⟩, htext, trivial, by simp⟩
  have hjoined : Text.Joined (values.map fun value => value.display.toList)
      "-9223372036854775808 , +,a b,  FALSE".toList :=
    .more _ 1 1 (.more _ 0 0 (.more _ 0 2 (.last _)))
  have hsuits : List.Forall₂ (Suits awaiting.environment) awaited values :=
    .cons ⟨_, rfl, rfl⟩ (.cons ⟨_, rfl, rfl⟩ (.cons ⟨_, rfl, rfl⟩ (.cons ⟨_, rfl, rfl⟩ .nil)))
  obtain ⟨after, hrun, hconsole, htargets, -, hothers⟩ :=
    scan_displayed hvalues (by decide) hsuits hjoined rfl 3
  simp only [awaited, values, List.map_cons, List.forall₂_cons] at htargets
  obtain ⟨⟨_, ⟨⟩, hn⟩, ⟨_, ⟨⟩, hc⟩, ⟨_, ⟨⟩, hs⟩, ⟨_, ⟨⟩, hb⟩, -⟩ := htargets
  have hhidden := hothers 0 "n" (by decide)
  exact ⟨after, hrun, congrArg Console.unread hconsole, hn, hc, hs, hb, hhidden⟩

end Exec

end BeginCode
