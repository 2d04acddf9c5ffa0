import Bobbit.Shared.UploadedAttachmentContext

/-!
# What is read from an attachment context

The tags of an output are found again by splitting it at the angle brackets, and the
elements by a grammar of their tags.

## Key results
- `escapeMarkup_eq`: a text is escaped unit by unit, and has no markup then.
- `takeLeadingExcerpt_spec`: an excerpt is an escaped prefix of whole code points within
  its budget.
- `elements_output`: the elements of an output are those of its documents.
- `context_read_back`: the claims about them, for a text that has no such tags itself.
-/

namespace Bobbit.Shared.UploadedAttachmentContext

open Bobbit.Lib JsString Json

/-! ## Reading -/

/-- `<`. -/
def lt : UInt16 := 0x3C

/-- `>`. -/
def gt : UInt16 := 0x3E

/-- `"`. -/
def quote : UInt16 := 0x22

inductive Tag
  /-- with its attributes, none when they are ill-formed -/
  | openAttachment (attributes : Option (List (JsString × JsString)))
  | closeAttachment
  | openExcerpt
  | closeExcerpt
deriving DecidableEq

structure Element where
  attributes : List (JsString × JsString)
  excerpt : Option JsString
  note : JsString
deriving DecidableEq

/-- The name of an attribute, from what stands before its value. -/
def attributeName (label : JsString) : Option JsString :=
  if label.head? = some 0x20 ∧ label.getLast? = some 0x3D then some label.tail.dropLast else none

/-- Names and quoted values in turn. -/
def readAttributes : List JsString → Option (List (JsString × JsString))
  | [last] => if last = [] then some [] else none
  | label :: value :: rest => do
    let name ← attributeName label
    let others ← readAttributes rest
    some ((name, value) :: others)
  | [] => none

/-- The tag of what stands between the angle brackets. -/
def tagNamed (body : JsString) : Option Tag :=
  if (js "user-attachment").isPrefixOf body then
    some (.openAttachment
      (readAttributes ((body.drop (js "user-attachment").length).splitOn quote)))
  else if (js "/user-attachment").isPrefixOf body then some .closeAttachment
  else if (js "leading-excerpt").isPrefixOf body then some .openExcerpt
  else if (js "/leading-excerpt").isPrefixOf body then some .closeExcerpt
  else none

/-- The tag that a chunk after an angle bracket begins with, and the text after it. -/
def tagOf (chunk : JsString) : Option (Tag × JsString) :=
  if gt ∈ chunk then
    (tagNamed (chunk.takeWhile (· ≠ gt))).map (·, (chunk.dropWhile (· ≠ gt)).tail)
  else none

/-- The text before the first tag, and the tags, each with the text after it. -/
def pieces : List JsString → JsString × List (Tag × JsString)
  | [] => ([], [])
  | chunk :: rest =>
    match tagOf chunk with
    | some (tag, after) => ([], (tag, after ++ (pieces rest).1) :: (pieces rest).2)
    | none => (lt :: chunk ++ (pieces rest).1, (pieces rest).2)

/-- The lines of a body that stands on lines of its own, which may be none. -/
def framed (body : JsString) : Option JsString :=
  if body = [lineFeed] then some []
  else if 2 ≤ body.length ∧ body.head? = some lineFeed ∧ body.getLast? = some lineFeed then
    some body.tail.dropLast
  else none

def elements : List (Tag × JsString) → Option (List Element)
  | [] => some []
  | (.openAttachment (some attributes), body) :: (.closeAttachment, _) :: rest => do
    let note ← framed body
    let others ← elements rest
    some (⟨attributes, none, note⟩ :: others)
  | (.openAttachment (some attributes), before) :: (.openExcerpt, text) ::
      (.closeExcerpt, after) :: (.closeAttachment, _) :: rest => do
    guard (before = [lineFeed])
    let excerpt ← framed text
    let note ← framed after
    let others ← elements rest
    some (⟨attributes, some excerpt, note⟩ :: others)
  | _ => none

def tags (s : JsString) : List (Tag × JsString) := (pieces (s.splitOn lt).tail).2

/-- The elements of a text, none when its tags are ill-formed. -/
def readContext (s : JsString) : Option (List Element) := elements (tags s)

/-! ## Escaped text -/

def escapeUnit (u : UInt16) : JsString :=
  if u = 0x26 then js "&amp;"
  else if u = 0x22 then js "&quot;"
  else if u = 0x27 then js "&#39;"
  else if u = 0x3C then js "&lt;"
  else if u = 0x3E then js "&gt;"
  else [u]

theorem replaceUnit_flatMap (c : UInt16) (replacement : JsString) (f : UInt16 → JsString)
    (s : JsString) :
    replaceUnit c replacement (s.flatMap f) = s.flatMap fun u => replaceUnit c replacement (f u) :=
  List.flatMap_assoc

variable (s : JsString)

theorem escapeMarkup_eq : escapeMarkup s = s.flatMap escapeUnit := by
  unfold escapeMarkup
  rw [replaceUnit.eq_1 0x26]
  simp only [replaceUnit_flatMap]
  refine List.flatMap_congr fun u _ => ?_
  by_cases hamp : u = 0x26
  · subst hamp; decide
  by_cases hquot : u = 0x22
  · subst hquot; decide
  by_cases hapos : u = 0x27
  · subst hapos; decide
  by_cases hlt : u = 0x3C
  · subst hlt; decide
  by_cases hgt : u = 0x3E
  · subst hgt; decide
  simp [replaceUnit, escapeUnit, hamp, hquot, hapos, hlt, hgt]

/-- Neither markup nor a surrogate. -/
def isPlain (c : UInt16) : Bool :=
  c ≠ lt && c ≠ gt && c ≠ quote && !isHighSurrogate c && !isLowSurrogate c

theorem escapeUnit_cases (u : UInt16) :
    (escapeUnit u = [u] ∧ u ≠ lt ∧ u ≠ gt ∧ u ≠ quote) ∨
      (escapeUnit u ≠ [] ∧ (escapeUnit u).all isPlain = true) := by
  unfold escapeUnit
  split
  · right; decide
  split
  · right; decide
  split
  · right; decide
  split
  · right; decide
  split
  · right; decide
  · rename_i hquot _ hlt hgt
    exact .inl ⟨rfl, hlt, hgt, hquot⟩

theorem plain_of_mem {u c : UInt16} (hall : (escapeUnit u).all isPlain = true)
    (hc : c ∈ escapeUnit u) :
    (c ≠ lt ∧ c ≠ gt ∧ c ≠ quote) ∧ isHighSurrogate c = false ∧ isLowSurrogate c = false := by
  have h := List.all_eq_true.mp hall c hc
  simp only [isPlain, Bool.and_eq_true, decide_eq_true_eq, Bool.not_eq_true'] at h
  exact ⟨⟨h.1.1.1.1, h.1.1.1.2, h.1.1.2⟩, h.1.2, h.2⟩

theorem not_mem_escapeMarkup :
    lt ∉ escapeMarkup s ∧ gt ∉ escapeMarkup s ∧ quote ∉ escapeMarkup s := by
  have hplain : ∀ c ∈ escapeMarkup s, c ≠ lt ∧ c ≠ gt ∧ c ≠ quote := by
    intro c hc
    rw [escapeMarkup_eq] at hc
    obtain ⟨u, _, hu⟩ := List.mem_flatMap.mp hc
    rcases escapeUnit_cases u with ⟨hself, hlt, hgt, hquote⟩ | ⟨_, hall⟩
    · rw [hself, List.mem_singleton] at hu
      exact hu ▸ ⟨hlt, hgt, hquote⟩
    · exact (plain_of_mem hall hu).1
  exact ⟨fun h => (hplain _ h).1 rfl, fun h => (hplain _ h).2.1 rfl,
    fun h => (hplain _ h).2.2 rfl⟩

theorem escapeUnit_ne_nil (u : UInt16) : escapeUnit u ≠ [] := by
  rcases escapeUnit_cases u with ⟨hself, _⟩ | ⟨hne, _⟩
  · simp [hself]
  · exact hne

theorem escapeMarkup_ne_nil {s : JsString} (h : s ≠ []) : escapeMarkup s ≠ [] := by
  obtain ⟨u, rest, rfl⟩ := List.exists_cons_of_ne_nil h
  rw [escapeMarkup_eq, List.flatMap_cons]
  exact List.append_ne_nil_of_left_ne_nil (escapeUnit_ne_nil u) _

/-- Text that ends in a high surrogate when escaped ended in one. -/
theorem high_of_escapeMarkup {s : JsString}
    (h : (escapeMarkup s).getLast?.any isHighSurrogate = true) :
    s.getLast?.any isHighSurrogate = true := by
  rcases List.eq_nil_or_concat s with rfl | ⟨init, u, rfl⟩
  · exact h
  · rw [List.concat_eq_append] at h ⊢
    rw [escapeMarkup_eq, List.flatMap_append, List.flatMap_singleton,
      List.getLast?_append_of_ne_nil _ (escapeUnit_ne_nil u)] at h
    rcases escapeUnit_cases u with ⟨hself, _⟩ | ⟨hne, hall⟩
    · simpa [hself] using h
    · obtain ⟨c, hc⟩ := Option.isSome_iff_exists.mp (List.getLast?_isSome.mpr hne)
      rw [hc, Option.any_some, (plain_of_mem hall (List.mem_of_getLast? hc)).2.1] at h
      cases h

/-- Text that begins with a low surrogate when escaped began with one. -/
theorem low_of_escapeMarkup {s : JsString}
    (h : (escapeMarkup s).head?.any isLowSurrogate = true) :
    s.head?.any isLowSurrogate = true := by
  cases s with
  | nil => exact h
  | cons u rest =>
    rw [escapeMarkup_eq, List.flatMap_cons,
      List.head?_append_of_ne_nil _ (escapeUnit_ne_nil u)] at h
    rcases escapeUnit_cases u with ⟨hself, _⟩ | ⟨hne, hall⟩
    · simpa [hself] using h
    · obtain ⟨c, tail, hcons⟩ := List.exists_cons_of_ne_nil hne
      have hc : c ∈ escapeUnit u := hcons ▸ List.mem_cons_self
      rw [hcons, List.head?_cons, Option.any_some, (plain_of_mem hall hc).2.2] at h
      cases h

theorem flatten_map_escapeMarkup (parts : List JsString) :
    (parts.map escapeMarkup).flatten = escapeMarkup parts.flatten := by
  rw [escapeMarkup_eq, List.flatten_eq_flatMap, List.flatten_eq_flatMap, List.flatMap_assoc,
    List.flatMap_map]
  exact List.flatMap_congr fun part _ => escapeMarkup_eq part

/-! ## Excerpts -/

theorem takeCodePoints_spec (tokenBudget : Nat) (parts : List JsString) (scan : ExcerptScan)
    (hscan : scan.tokenUnits ≤ tokenBudget) :
    ∃ k, takeCodePoints tokenBudget parts scan =
        ⟨scan.escaped ++ ((parts.take k).map escapeMarkup).flatten,
          scan.consumedCodeUnits + (parts.take k).flatten.length,
          scan.tokenUnits + (((parts.take k).map escapeMarkup).map byteLength).sum⟩ ∧
      (takeCodePoints tokenBudget parts scan).tokenUnits ≤ tokenBudget := by
  induction parts generalizing scan with
  | nil => exact ⟨0, by simp [takeCodePoints], hscan⟩
  | cons codePoint rest ih =>
    rw [takeCodePoints]
    split
    · exact ⟨0, by simp, hscan⟩
    · rename_i hfits
      obtain ⟨k, heq, hle⟩ := ih
        { escaped := scan.escaped ++ escapeMarkup codePoint
          consumedCodeUnits := scan.consumedCodeUnits + codePoint.length
          tokenUnits := scan.tokenUnits + countTokenUnits (escapeMarkup codePoint) }
        (Nat.le_of_not_gt hfits)
      refine ⟨k + 1, ?_, hle⟩
      rw [heq]
      simp [countTokenUnits, Nat.add_assoc]

theorem apart_escaped (text : JsString) (k : Nat) :
    (((codePoints text).take k).map escapeMarkup).IsChain NoPair := by
  rw [List.isChain_map]
  refine ((apart_codePoints text).take k).imp ?_
  intro a b hab hboth
  exact hab ⟨high_of_escapeMarkup hboth.1, low_of_escapeMarkup hboth.2⟩

/-- An excerpt is an escaped prefix of whole code points within its budget, and it says
    whether there is more. -/
theorem takeLeadingExcerpt_spec (text : JsString) (tokenBudget : Nat) :
    ∃ k, (takeLeadingExcerpt text tokenBudget).text =
        escapeMarkup ((codePoints text).take k).flatten ∧
      (takeLeadingExcerpt text tokenBudget).tokenUnits =
        byteLength (escapeMarkup ((codePoints text).take k).flatten) ∧
      (takeLeadingExcerpt text tokenBudget).tokenUnits ≤ tokenBudget ∧
      ((takeLeadingExcerpt text tokenBudget).truncated = true ↔
        ((codePoints text).take k).flatten ≠ text) := by
  obtain ⟨k, heq, hle⟩ := takeCodePoints_spec tokenBudget (codePoints text) ⟨[], 0, 0⟩
    (Nat.zero_le _)
  have hbytes : (((codePoints text).take k).map escapeMarkup |>.map byteLength).sum =
      byteLength (escapeMarkup ((codePoints text).take k).flatten) := by
    rw [← flatten_map_escapeMarkup]
    refine (byteLength_flatten ?_ (apart_escaped text k)).symm
    intro c hc
    obtain ⟨part, hpart, rfl⟩ := List.mem_map.mp hc
    exact escapeMarkup_ne_nil (ne_nil_of_mem_codePoints (List.mem_of_mem_take hpart))
  have hsplit : ((codePoints text).take k).flatten ++ ((codePoints text).drop k).flatten =
      text := by
    rw [← List.flatten_append, List.take_append_drop, flatten_codePoints]
  refine ⟨k, ?_, ?_, ?_, ?_⟩
  · rw [takeLeadingExcerpt, heq, ← flatten_map_escapeMarkup]
    rfl
  · rw [takeLeadingExcerpt, heq, ← hbytes]
    exact Nat.zero_add _
  · exact hle
  · rw [takeLeadingExcerpt, heq]
    simp only [Nat.zero_add, decide_eq_true_eq]
    constructor
    · intro h heq
      rw [heq] at h
      exact Nat.lt_irrefl _ h
    · intro hne
      have hlen := congrArg List.length hsplit
      rw [List.length_append] at hlen
      have hpos : ((codePoints text).drop k).flatten.length ≠ 0 := by
        intro hzero
        rw [List.length_eq_zero_iff.mp hzero, List.append_nil] at hsplit
        exact hne hsplit
      omega

/-! ## Tags -/

theorem tagOf_append {body after : JsString} (h : gt ∉ body) :
    tagOf (body ++ gt :: after) = (tagNamed body).map (·, after) := by
  have hbody : ∀ c ∈ body, decide (c ≠ gt) = true := by
    intro c hc
    exact decide_eq_true fun heq => h (heq ▸ hc)
  rw [tagOf, if_pos (by simp), List.takeWhile_append_of_pos hbody,
    List.dropWhile_append_of_pos hbody]
  simp

/-- Text without brackets after a chunk that begins with no tag makes none. -/
theorem tagOf_pad {chunk pad : JsString} (hpad : gt ∉ pad) (h : tagOf chunk = none) :
    tagOf (chunk ++ pad) = none := by
  unfold tagOf at h ⊢
  by_cases hmem : gt ∈ chunk
  · rw [if_pos hmem, Option.map_eq_none_iff] at h
    have hstop : ¬ (chunk.takeWhile (· ≠ gt)).length = chunk.length := by
      intro hlen
      have hall := (List.takeWhile_prefix (· ≠ gt)).eq_of_length hlen
      have hne := List.mem_takeWhile_imp (hall.symm ▸ hmem : gt ∈ chunk.takeWhile (· ≠ gt))
      simp at hne
    rw [if_pos (List.mem_append_left _ hmem), List.takeWhile_append, if_neg hstop, h]
    rfl
  · rw [if_neg (by simp [hmem, hpad])]

theorem pieces_append {chunks : List JsString} (h : ∀ c ∈ chunks, tagOf c = none)
    (rest : List JsString) : (pieces (chunks ++ rest)).2 = (pieces rest).2 := by
  induction chunks with
  | nil => rfl
  | cons chunk others ih =>
    rw [List.cons_append, pieces, h chunk List.mem_cons_self]
    exact ih fun c hc => h c (List.mem_cons_of_mem _ hc)

theorem tagOf_eq_none {chunks : List JsString} (h : (pieces chunks).2 = []) :
    ∀ c ∈ chunks, tagOf c = none := by
  induction chunks with
  | nil => simp
  | cons chunk others ih =>
    rw [pieces] at h
    cases htag : tagOf chunk with
    | some entry => simp [htag] at h
    | none =>
      rw [htag] at h
      intro c hc
      rcases List.mem_cons.mp hc with rfl | hc
      · exact htag
      · exact ih h c hc

theorem splitOn_pad {pad : JsString} (hpad : lt ∉ pad) :
    ∃ init last, s.splitOn lt = init ++ [last] ∧ (s ++ pad).splitOn lt = init ++ [last ++ pad] := by
  induction s with
  | nil => exact ⟨[], [], by simp, by simp [List.splitOn_eq_singleton hpad]⟩
  | cons c rest ih =>
    obtain ⟨init, last, hs, hpadded⟩ := ih
    rw [List.cons_append, List.splitOn_cons_eq_if_modifyHead,
      List.splitOn_cons_eq_if_modifyHead, hs, hpadded]
    split
    · exact ⟨[] :: init, last, rfl, rfl⟩
    · cases init with
      | nil => exact ⟨[], c :: last, rfl, rfl⟩
      | cons first init => exact ⟨(c :: first) :: init, last, rfl, rfl⟩

theorem tags_append {s pad : JsString} (hs : tags s = []) (hpad : lt ∉ pad ∧ gt ∉ pad)
    (t : JsString) : tags (s ++ pad ++ lt :: t) = (pieces (t.splitOn lt)).2 := by
  obtain ⟨init, last, hsplit, hpadded⟩ := splitOn_pad s hpad.1
  rw [tags, List.splitOn_append_cons_self, hpadded]
  rw [tags, hsplit] at hs
  cases init with
  | nil => rfl
  | cons first init =>
    have hnone := tagOf_eq_none hs
    refine pieces_append ?_ (t.splitOn lt)
    intro c hc
    have hc : c ∈ init ++ [last ++ pad] := hc
    rcases List.mem_append.mp hc with hc | hc
    · exact hnone c (by simp [hc])
    · rw [List.mem_singleton.mp hc]
      exact tagOf_pad hpad.2 (hnone last (by simp))

/-! ## Attributes -/

def elementAttributes (attachment : ValidatedDocumentContext) : List (JsString × JsString) :=
  [(js "filename", escapeMarkup attachment.fileName),
    (js "mime-type", escapeMarkup attachment.mimeType),
    (js "size-bytes", js (Nat.repr attachment.size)),
    (js "pointer", escapeMarkup attachment.pointer)]

theorem not_mem_repr (n : Nat) :
    lt ∉ js (Nat.repr n) ∧ gt ∉ js (Nat.repr n) ∧ quote ∉ js (Nat.repr n) := by
  have hplain : ∀ u ∈ js (Nat.repr n), 0x30 ≤ u.toNat ∧ u.toNat ≤ 0x39 := by
    intro u hu
    obtain ⟨c, hc, hu⟩ := List.mem_flatMap.mp hu
    rw [Nat.repr, String.toList_ofList] at hc
    have hdigit := Nat.isDigit_of_mem_toDigits (by decide) (by decide) hc
    simp only [Char.isDigit, Bool.and_eq_true, decide_eq_true_eq, ge_iff_le,
      UInt32.le_iff_toNat_le] at hdigit
    have hval : c.val.toNat = c.toNat := rfl
    have hlow : 48 ≤ c.toNat := hval ▸ hdigit.1
    have hhigh : c.toNat ≤ 57 := hval ▸ hdigit.2
    rw [utf16, if_pos (by omega), List.mem_singleton] at hu
    rw [hu, Nat.toUInt16, UInt16.toNat_ofNat']
    omega
  refine ⟨fun h => ?_, fun h => ?_, fun h => ?_⟩ <;> exact absurd (hplain _ h) (by decide)

variable (attachment : ValidatedDocumentContext)

theorem attributesOf_eq : [0x20] ++ attributesOf attachment = [quote].intercalate
      [js " filename=", escapeMarkup attachment.fileName, js " mime-type=",
        escapeMarkup attachment.mimeType, js " size-bytes=", js (Nat.repr attachment.size),
        js " pointer=", escapeMarkup attachment.pointer, []] := by
  have hname : js " filename=" ++ [quote] = [0x20] ++ js "filename=\"" := by decide
  have hmime : js " mime-type=" ++ [quote] = [0x20] ++ js "mime-type=\"" := by decide
  have hsize : js " size-bytes=" ++ [quote] = [0x20] ++ js "size-bytes=\"" := by decide
  have hpointer : js " pointer=" ++ [quote] = [0x20] ++ js "pointer=\"" := by decide
  have hquote : js "\"" = [quote] := by decide
  simp only [attributesOf, List.intercalate_cons_cons, List.intercalate_singleton, hquote,
    List.append_assoc, List.append_nil]
  simp only [← List.append_assoc, hname, hmime, hsize, hpointer]

theorem readAttributes_attributesOf :
    readAttributes (([0x20] ++ attributesOf attachment).splitOn quote) =
      some (elementAttributes attachment) := by
  rw [attributesOf_eq, List.splitOn_intercalate]
  · have hname : attributeName (js " filename=") = some (js "filename") := by decide
    have hmime : attributeName (js " mime-type=") = some (js "mime-type") := by decide
    have hsize : attributeName (js " size-bytes=") = some (js "size-bytes") := by decide
    have hpointer : attributeName (js " pointer=") = some (js "pointer") := by decide
    simp [readAttributes, hname, hmime, hsize, hpointer, elementAttributes]
  · simp only [List.mem_cons, List.not_mem_nil, or_false, forall_eq_or_imp, forall_eq]
    refine ⟨by decide, (not_mem_escapeMarkup _).2.2, by decide, (not_mem_escapeMarkup _).2.2,
      by decide, (not_mem_repr _).2.2, by decide, (not_mem_escapeMarkup _).2.2, by decide⟩
  · simp

def Unmarked (s : JsString) : Prop := lt ∉ s ∧ gt ∉ s

instance (s : JsString) : Decidable (Unmarked s) := inferInstanceAs (Decidable (_ ∧ _))

theorem unmarked_append {a b : JsString} (ha : Unmarked a) (hb : Unmarked b) :
    Unmarked (a ++ b) := by
  simp only [Unmarked, List.mem_append, not_or]
  exact ⟨⟨ha.1, hb.1⟩, ⟨ha.2, hb.2⟩⟩

theorem unmarked_escapeMarkup : Unmarked (escapeMarkup s) :=
  ⟨(not_mem_escapeMarkup s).1, (not_mem_escapeMarkup s).2.1⟩

theorem unmarked_repr (n : Nat) : Unmarked (js (Nat.repr n)) :=
  ⟨(not_mem_repr n).1, (not_mem_repr n).2.1⟩

theorem unmarked_attribute {label value : JsString} (hlabel : Unmarked label)
    (hvalue : Unmarked value) : Unmarked (label ++ value ++ js "\"") :=
  unmarked_append (unmarked_append hlabel hvalue) (by decide)

theorem unmarked_intercalate {sep : JsString} (hsep : Unmarked sep) {parts : List JsString}
    (h : ∀ part ∈ parts, Unmarked part) : Unmarked (sep.intercalate parts) := by
  induction parts with
  | nil => exact ⟨List.not_mem_nil, List.not_mem_nil⟩
  | cons part rest ih =>
    have hrest := ih fun p hp => h p (List.mem_cons_of_mem _ hp)
    cases rest with
    | nil => simpa using h part List.mem_cons_self
    | cons next rest =>
      rw [List.intercalate_cons_cons]
      exact unmarked_append (unmarked_append (h part List.mem_cons_self) hsep) hrest

theorem unmarked_attributesOf : Unmarked (attributesOf attachment) := by
  refine unmarked_intercalate (by decide) ?_
  simp only [List.mem_cons, List.not_mem_nil, or_false, forall_eq_or_imp, forall_eq]
  exact ⟨unmarked_attribute (by decide) (unmarked_escapeMarkup _),
    unmarked_attribute (by decide) (unmarked_escapeMarkup _),
    unmarked_attribute (by decide) (unmarked_repr _),
    unmarked_attribute (by decide) (unmarked_escapeMarkup _)⟩

theorem unmarked_binaryNote : Unmarked (binaryNote (escapeMarkup s)) :=
  unmarked_append (unmarked_append (by decide) (unmarked_escapeMarkup s)) (by decide)

theorem unmarked_truncationNotice : Unmarked (truncationNotice (escapeMarkup s)) :=
  unmarked_append (unmarked_append (by decide) (unmarked_escapeMarkup s)) (by decide)

/-! ## Blocks -/

/-- The tag that opens the element of a document, and the text behind it. -/
theorem tagOf_open (after : JsString) :
    tagOf (js "user-attachment" ++ ([0x20] ++ attributesOf attachment) ++ gt :: after) =
      some (.openAttachment (some (elementAttributes attachment)), after) := by
  have hplain : Unmarked (js "user-attachment" ++ ([0x20] ++ attributesOf attachment)) :=
    unmarked_append (by decide) (unmarked_append (by decide) (unmarked_attributesOf attachment))
  rw [tagOf_append hplain.2, tagNamed,
    if_pos (List.isPrefixOf_iff_prefix.mpr (List.prefix_append _ _)), List.drop_left,
    readAttributes_attributesOf]
  rfl

theorem tagOf_close (after : JsString) :
    tagOf (js "/user-attachment" ++ gt :: after) = some (.closeAttachment, after) := by
  rw [tagOf_append (by decide)]
  have hname : tagNamed (js "/user-attachment") = some .closeAttachment := by decide
  rw [hname]
  rfl

theorem tagOf_openExcerpt (after : JsString) :
    tagOf (js "leading-excerpt" ++ gt :: after) = some (.openExcerpt, after) := by
  rw [tagOf_append (by decide)]
  have hname : tagNamed (js "leading-excerpt") = some .openExcerpt := by decide
  rw [hname]
  rfl

theorem tagOf_closeExcerpt (after : JsString) :
    tagOf (js "/leading-excerpt" ++ gt :: after) = some (.closeExcerpt, after) := by
  rw [tagOf_append (by decide)]
  have hname : tagNamed (js "/leading-excerpt") = some .closeExcerpt := by decide
  rw [hname]
  rfl

theorem framed_line : framed (lineFeed :: s ++ [lineFeed]) = some s := by
  rw [framed, if_neg (by simp), if_pos]
  · simp
  · exact ⟨by simp, rfl, List.getLast?_concat⟩

theorem framed_empty : framed [lineFeed] = some [] := if_pos rfl

theorem elements_binary {attributes : List (JsString × JsString)} {body note : JsString}
    (h : framed body = some note) (after : JsString) (rest : List (Tag × JsString)) :
    elements ((.openAttachment (some attributes), body) :: (.closeAttachment, after) :: rest) =
      (elements rest).map (⟨attributes, none, note⟩ :: ·) := by
  rw [elements, h]
  cases elements rest <;> rfl

theorem elements_excerpt {attributes : List (JsString × JsString)} {body text : JsString}
    {excerpt note : JsString} (htext : framed text = some excerpt) (h : framed body = some note)
    (after : JsString) (rest : List (Tag × JsString)) :
    elements ((.openAttachment (some attributes), [lineFeed]) :: (.openExcerpt, text) ::
        (.closeExcerpt, body) :: (.closeAttachment, after) :: rest) =
      (elements rest).map (⟨attributes, some excerpt, note⟩ :: ·) := by
  rw [elements, htext, h]
  cases elements rest <;> rfl

/-- The chunks of a block, the last of which may be followed by more text, read as an
    element and what comes after it. -/
def Reads (block : JsString) (element : Element) : Prop :=
  ∃ init last, block = lt :: [lt].intercalate (init ++ [last]) ∧
    (∀ c ∈ init ++ [last], lt ∉ c) ∧
    ∀ pad rest, (pieces rest).1 = [] →
      (pieces (init ++ (last ++ pad) :: rest)).1 = [] ∧
      elements (pieces (init ++ (last ++ pad) :: rest)).2 =
        (elements (pieces rest).2).map (element :: ·)

theorem lt_not_mem_open {after : JsString} (h : lt ∉ after) :
    lt ∉ js "user-attachment" ++ ([0x20] ++ attributesOf attachment) ++ gt :: after := by
  have hplain : Unmarked (js "user-attachment" ++ ([0x20] ++ attributesOf attachment)) :=
    unmarked_append (by decide) (unmarked_append (by decide) (unmarked_attributesOf attachment))
  have hgt : lt ≠ gt := by decide
  rw [List.mem_append, List.mem_cons]
  exact fun hmem => hmem.elim hplain.1 (·.elim hgt h)

theorem lt_not_mem_line {s : JsString} (h : lt ∉ s) : lt ∉ lineFeed :: s ++ [lineFeed] := by
  have hfeed : lt ≠ lineFeed := by decide
  simpa [hfeed] using h

theorem lt_not_mem_tag {name after : JsString} (hname : lt ∉ name) (h : lt ∉ after) :
    lt ∉ name ++ gt :: after := by
  have hgt : lt ≠ gt := by decide
  simpa [hgt] using ⟨hname, h⟩

theorem reads_binaryBlock : Reads (binaryBlock attachment)
      ⟨elementAttributes attachment, none, binaryNote (escapeMarkup attachment.pointer)⟩ := by
  have hopen : js "<user-attachment " = lt :: js "user-attachment" ++ [0x20] := by decide
  have hend : js ">\n" = [gt, lineFeed] := by decide
  have hfeed : js "\n" = [lineFeed] := by decide
  have hclose : js "</user-attachment>" = lt :: (js "/user-attachment" ++ [gt]) := by decide
  refine ⟨[js "user-attachment" ++ ([0x20] ++ attributesOf attachment) ++
      gt :: (lineFeed :: binaryNote (escapeMarkup attachment.pointer) ++ [lineFeed])],
    js "/user-attachment" ++ [gt], ?_, ?_, ?_⟩
  · simp [binaryBlock, hopen, hend, hfeed, hclose, List.intercalate_cons_cons]
  · simp only [List.cons_append, List.nil_append, List.forall_mem_cons, List.not_mem_nil,
      IsEmpty.forall_iff, implies_true, and_true]
    exact ⟨lt_not_mem_open _ (lt_not_mem_line (unmarked_binaryNote _).1), by decide⟩
  · intro pad rest hrest
    rw [List.singleton_append, pieces, tagOf_open, List.append_assoc, List.singleton_append,
      pieces, tagOf_close]
    simp only [hrest, List.append_nil]
    exact ⟨trivial, elements_binary (framed_line _) pad (pieces rest).2⟩

/-- What stands between the tags of an excerpt. -/
def excerptBody (text : JsString) : JsString :=
  if text.isEmpty then [lineFeed] else lineFeed :: text ++ [lineFeed]

theorem framed_excerptBody (text : JsString) : framed (excerptBody text) = some text := by
  unfold excerptBody
  split
  · rename_i h
    rw [List.isEmpty_iff.mp h]
    exact framed_empty
  · exact framed_line text

def noteOf (attachment : ValidatedDocumentContext) (truncated : Bool) : JsString :=
  if truncated then truncationNotice (escapeMarkup attachment.pointer) else []

theorem reads_excerptBlock (excerpt : LeadingExcerpt) (hplain : lt ∉ excerpt.text) :
    Reads (excerptBlock attachment excerpt)
      ⟨elementAttributes attachment, some excerpt.text, noteOf attachment excerpt.truncated⟩ := by
  have hopen : js "<user-attachment " = lt :: js "user-attachment" ++ [0x20] := by decide
  have hgt : js ">" = [gt] := by decide
  have hexcerpt : js "<leading-excerpt>" = lt :: (js "leading-excerpt" ++ [gt]) := by decide
  have hexcerptEnd : js "</leading-excerpt>" = lt :: (js "/leading-excerpt" ++ [gt]) := by decide
  have hclose : js "</user-attachment>" = lt :: (js "/user-attachment" ++ [gt]) := by decide
  have hfeed : lt ≠ lineFeed := by decide
  refine ⟨[js "user-attachment" ++ ([0x20] ++ attributesOf attachment) ++ gt :: [lineFeed],
      js "leading-excerpt" ++ gt :: excerptBody excerpt.text,
      js "/leading-excerpt" ++ gt :: excerptBody (noteOf attachment excerpt.truncated)],
    js "/user-attachment" ++ [gt], ?_, ?_, ?_⟩
  · have hnotice : (truncationNotice (escapeMarkup attachment.pointer)).isEmpty = false := rfl
    cases htext : excerpt.text.isEmpty <;> cases htruncated : excerpt.truncated <;>
      simp [excerptBlock, unlines, hopen, hgt, hexcerpt, hexcerptEnd, hclose,
        List.intercalate_cons_cons, excerptBody, noteOf, htext, htruncated, hnotice]
  · have hbody {s : JsString} (h : lt ∉ s) : lt ∉ excerptBody s := by
      unfold excerptBody
      split
      · simp [hfeed]
      · exact lt_not_mem_line h
    have hnote : lt ∉ noteOf attachment excerpt.truncated := by
      unfold noteOf
      split
      · exact (unmarked_truncationNotice _).1
      · exact List.not_mem_nil
    simp only [List.cons_append, List.nil_append, List.forall_mem_cons, List.not_mem_nil,
      IsEmpty.forall_iff, implies_true, and_true]
    exact ⟨lt_not_mem_open _ (by simp [hfeed]), lt_not_mem_tag (by decide) (hbody hplain),
      lt_not_mem_tag (by decide) (hbody hnote), by decide⟩
  · intro pad rest hrest
    have hcons (a b c d : JsString) (l : List JsString) :
        [a, b, c] ++ d :: l = a :: b :: c :: d :: l := rfl
    rw [hcons, pieces, tagOf_open, pieces, tagOf_openExcerpt, pieces, tagOf_closeExcerpt,
      List.append_assoc, List.singleton_append, pieces, tagOf_close]
    simp only [hrest, List.append_nil]
    exact ⟨trivial, elements_excerpt (framed_excerptBody _) (framed_excerptBody _) pad
      (pieces rest).2⟩

/-! ## Outputs -/

theorem intercalate_pad (init : List JsString) (last pad : JsString) :
    [lt].intercalate (init ++ [last]) ++ pad = [lt].intercalate (init ++ [last ++ pad]) := by
  induction init with
  | nil => simp
  | cons c init ih =>
    rw [List.cons_append, List.cons_append,
      List.intercalate_cons_of_ne_nil (by simp), List.intercalate_cons_of_ne_nil (by simp),
      List.append_assoc, ih]

theorem elements_join {blocks : List JsString} {es : List Element}
    (h : List.Forall₂ Reads blocks es) (hne : blocks ≠ []) :
    ∃ t, (js "\n\n").intercalate blocks = lt :: t ∧ (pieces (t.splitOn lt)).1 = [] ∧
      elements (pieces (t.splitOn lt)).2 = some es := by
  have hsep : lt ∉ js "\n\n" := by decide
  induction h with
  | nil => exact absurd rfl hne
  | @cons block element blocks es hread hrest ih =>
    obtain ⟨init, last, hblock, hplain, hpieces⟩ := hread
    cases blocks with
    | nil =>
      obtain rfl : es = [] := by cases hrest; rfl
      refine ⟨[lt].intercalate (init ++ [last]), by simpa using hblock, ?_⟩
      rw [List.splitOn_intercalate lt hplain (by simp)]
      simpa [pieces, elements] using hpieces [] [] rfl
    | cons next blocks =>
      obtain ⟨t, hjoin, hlead, helements⟩ := ih (by simp)
      have hpadded : ∀ c ∈ init ++ [last ++ js "\n\n"], lt ∉ c := by
        intro c hc
        rcases List.mem_append.mp hc with hc | hc
        · exact hplain c (by simp [hc])
        · rw [List.mem_singleton.mp hc, List.mem_append]
          exact fun hmem => hmem.elim (hplain last (by simp)) hsep
      refine ⟨[lt].intercalate (init ++ [last ++ js "\n\n"]) ++ lt :: t, ?_, ?_⟩
      · rw [List.intercalate_cons_cons, hjoin, hblock, List.cons_append, List.cons_append,
          intercalate_pad]
      · rw [List.splitOn_append_cons_self, List.splitOn_intercalate lt hpadded (by simp),
          List.append_assoc, List.singleton_append]
        have hread := hpieces (js "\n\n") (t.splitOn lt) hlead
        rw [helements] at hread
        exact hread

/-- What an element says about its document: its metadata, and of its text an escaped
    prefix of whole code points within the budget, with a notice iff there is more. -/
structure Shows (perFileBudget : Nat) (attachment : ValidatedDocumentContext)
    (element : Element) : Prop where
  attributes : element.attributes = elementAttributes attachment
  binary : attachment.extractedText = none →
    element.excerpt = none ∧ element.note = binaryNote (escapeMarkup attachment.pointer)
  excerpt : ∀ text, attachment.extractedText = some text →
    ∃ k, element.excerpt = some (escapeMarkup ((codePoints text).take k).flatten) ∧
      byteLength (escapeMarkup ((codePoints text).take k).flatten) ≤ perFileBudget ∧
      element.note = if ((codePoints text).take k).flatten = text then []
        else truncationNotice (escapeMarkup attachment.pointer)

def excerptBytes (es : List Element) : Nat :=
  (es.map fun element => (element.excerpt.map byteLength).getD 0).sum

/-- The blocks when the first candidate is a document without text. -/
theorem attachmentBlocks_binary {perFileBudget aggregateRemaining : Nat}
    {candidate : Option UploadedAttachmentContextInput} {attachment : ValidatedDocumentContext}
    (hvalid : validateDocument candidate = some attachment)
    (htext : attachment.extractedText = none)
    (rest : List (Option UploadedAttachmentContextInput)) :
    attachmentBlocks perFileBudget (candidate :: rest) aggregateRemaining =
      binaryBlock attachment :: attachmentBlocks perFileBudget rest aggregateRemaining := by
  simp only [attachmentBlocks, hvalid, htext]

/-- The blocks when the first candidate is a document with text. -/
theorem attachmentBlocks_excerpt {perFileBudget aggregateRemaining : Nat}
    {candidate : Option UploadedAttachmentContextInput} {attachment : ValidatedDocumentContext}
    {text : JsString} (hvalid : validateDocument candidate = some attachment)
    (htext : attachment.extractedText = some text)
    (rest : List (Option UploadedAttachmentContextInput)) :
    attachmentBlocks perFileBudget (candidate :: rest) aggregateRemaining =
      excerptBlock attachment (takeLeadingExcerpt text (min perFileBudget aggregateRemaining)) ::
        attachmentBlocks perFileBudget rest (aggregateRemaining -
          (takeLeadingExcerpt text (min perFileBudget aggregateRemaining)).tokenUnits) := by
  simp only [attachmentBlocks, hvalid, htext]

/-- The blocks of the documents read as elements that show them, within the budgets. -/
theorem reads_attachmentBlocks (perFileBudget : Nat)
    (attachments : List (Option UploadedAttachmentContextInput)) (aggregateRemaining : Nat) :
    ∃ es, List.Forall₂ Reads (attachmentBlocks perFileBudget attachments aggregateRemaining) es ∧
      List.Forall₂ (Shows perFileBudget) (attachments.filterMap validateDocument) es ∧
      excerptBytes es ≤ aggregateRemaining := by
  induction attachments generalizing aggregateRemaining with
  | nil => exact ⟨[], .nil, .nil, Nat.zero_le _⟩
  | cons candidate rest ih =>
    cases hvalid : validateDocument candidate with
    | none =>
      rw [List.filterMap_cons_none hvalid, attachmentBlocks, hvalid]
      exact ih aggregateRemaining
    | some attachment =>
      rw [List.filterMap_cons_some hvalid]
      cases htext : attachment.extractedText with
      | none =>
        obtain ⟨es, hreads, hshows, hbytes⟩ := ih aggregateRemaining
        rw [attachmentBlocks_binary hvalid htext]
        refine ⟨_ :: es, .cons (reads_binaryBlock attachment) hreads, .cons ?_ hshows, ?_⟩
        · exact ⟨rfl, fun _ => ⟨rfl, rfl⟩, fun text h => by simp [htext] at h⟩
        · simpa [excerptBytes] using hbytes
      | some text =>
        obtain ⟨k, hexcerpt, hunits, hle, htruncated⟩ :=
          takeLeadingExcerpt_spec text (min perFileBudget aggregateRemaining)
        obtain ⟨es, hreads, hshows, hbytes⟩ := ih (aggregateRemaining -
          (takeLeadingExcerpt text (min perFileBudget aggregateRemaining)).tokenUnits)
        have hplain : lt ∉ (takeLeadingExcerpt text (min perFileBudget aggregateRemaining)).text :=
          hexcerpt ▸ (not_mem_escapeMarkup _).1
        rw [attachmentBlocks_excerpt hvalid htext]
        refine ⟨_ :: es, .cons (reads_excerptBlock attachment _ hplain) hreads,
          .cons ?_ hshows, ?_⟩
        · refine ⟨rfl, fun h => by simp [htext] at h, ?_⟩
          intro text' h
          obtain rfl : text = text' := Option.some.inj (htext.symm.trans h)
          refine ⟨k, congrArg some hexcerpt, hunits ▸ hle.trans (min_le_left _ _), ?_⟩
          unfold noteOf
          split
          · rename_i htrue
            rw [if_neg (htruncated.mp htrue)]
          · rename_i hfalse
            rw [if_pos (not_not.mp fun hne => hfalse (htruncated.mpr hne))]
        · have hspent := hle.trans (min_le_right _ _)
          rw [excerptBytes, List.map_cons, List.sum_cons]
          change byteLength _ + excerptBytes es ≤ _
          rw [hexcerpt, ← hunits]
          omega

def documentsOf (attachments : Option (List (Option UploadedAttachmentContextInput))) :
    List ValidatedDocumentContext :=
  (attachments.getD []).filterMap validateDocument

def perFileBudgetOf (options : UploadedAttachmentContextOptions) : Nat :=
  normalizeBudget options.perFileTokenBudget uploadedAttachmentPerFileTokenBudget

def aggregateBudgetOf (options : UploadedAttachmentContextOptions) : Nat :=
  normalizeBudget options.aggregateTokenBudget uploadedAttachmentAggregateTokenBudget

/-- **Read back.** The elements of the output for a text that has no such tags itself are
    those of the valid documents, in order, each shown within the per-file budget and all
    within the aggregate one. -/
theorem context_read_back (modelText : JsString)
    (attachments : Option (List (Option UploadedAttachmentContextInput)))
    (options : UploadedAttachmentContextOptions) (htext : tags modelText = []) :
    ∃ es, readContext (appendUploadedAttachmentContext modelText attachments options) = some es ∧
      List.Forall₂ (Shows (perFileBudgetOf options)) (documentsOf attachments) es ∧
      excerptBytes es ≤ aggregateBudgetOf options := by
  have hnone : readContext modelText = some [] := by rw [readContext, htext]; rfl
  cases attachments with
  | none => exact ⟨[], hnone, .nil, Nat.zero_le _⟩
  | some attachments =>
    obtain ⟨es, hreads, hshows, hbytes⟩ := reads_attachmentBlocks (perFileBudgetOf options)
      attachments (aggregateBudgetOf options)
    refine ⟨es, ?_, hshows, hbytes⟩
    have houtput : appendUploadedAttachmentContext modelText (some attachments) options =
        if (attachmentBlocks (perFileBudgetOf options) attachments
            (aggregateBudgetOf options)).isEmpty then modelText
        else modelText ++ (if modelText.isEmpty then [] else js "\n\n") ++
          (js "\n\n").intercalate (attachmentBlocks (perFileBudgetOf options) attachments
            (aggregateBudgetOf options)) := rfl
    rw [houtput]
    split
    · rename_i hempty
      rw [List.isEmpty_iff.mp hempty] at hreads
      obtain rfl : es = [] := by cases hreads; rfl
      exact hnone
    · rename_i hne
      obtain ⟨t, hjoin, _, helements⟩ := elements_join hreads
        (fun h => hne (List.isEmpty_iff.mpr h))
      have hpad : lt ∉ (if modelText.isEmpty then [] else js "\n\n") ∧
          gt ∉ (if modelText.isEmpty then [] else js "\n\n") := by
        split <;> decide
      rw [hjoin, readContext, tags_append htext hpad]
      exact helements

/-! ## Two inputs -/

def noteInput : UploadedAttachmentContextInput where
  type := .str (js "document")
  fileName := .str (js "<a>.txt")
  mimeType := .str (js "text/plain")
  size := .num 1
  pointer := .str (js "attachment:1")
  extractedText := .str (js "&")

/-- It is shown whole. -/
theorem note_read_back :
    tags (js "1 < 2") = [] ∧
    ∃ es, readContext (appendUploadedAttachmentContext (js "1 < 2") (some [some noteInput])
        ⟨.num 5, .undefined⟩) = some es ∧
      List.Forall₂ (Shows (perFileBudgetOf ⟨.num 5, .undefined⟩))
        (documentsOf (some [some noteInput])) es ∧
      excerptBytes es ≤ aggregateBudgetOf ⟨.num 5, .undefined⟩ :=
  ⟨by decide, context_read_back (js "1 < 2") (some [some noteInput]) ⟨.num 5, .undefined⟩
    (by decide)⟩

/-- A tag in the text of the user spoils the reading, and a negative budget is none. -/
theorem tag_and_budget_passed :
    readContext (appendUploadedAttachmentContext (js "<leading-excerpt>")
        (some [some noteInput]) ⟨.undefined, .undefined⟩) = none ∧
      (readContext (appendUploadedAttachmentContext [] (some [some noteInput])
        ⟨.num (-1), .undefined⟩)).map excerptBytes = some 5 := by
  constructor
  · decide +kernel
  · decide +kernel

end Bobbit.Shared.UploadedAttachmentContext
