import Palloc.FormatText

/-!
# JSON documents

The part of JSON that is made of whole numbers, arrays and objects: a text
and the value that it writes, as the grammar derives it.
-/

namespace Palloc

inductive Json where
  | number (x : ℤ)
  | array (elements : List Json)
  | object (members : List (List Char × Json))

def IsBlank (s : List Char) : Prop :=
  ∀ c ∈ s, c = ' ' ∨ c = '\n' ∨ c = '\r' ∨ c = '\t'

def IsName (s : List Char) : Prop :=
  ∀ c ∈ s, c ≠ '"' ∧ c ≠ '\\' ∧ ' ' ≤ c

inductive NumberText : ℤ → List Char → Prop where
  | plain {digits : List Char} (hdigits : IsNumeral digits) :
      NumberText (decimal digits) digits
  | negative {digits : List Char} (hdigits : IsNumeral digits) :
      NumberText (- (decimal digits : ℤ)) ('-' :: digits)

mutual

inductive JsonText : Json → List Char → Prop where
  | number {x : ℤ} {s : List Char} (hnumber : NumberText x s) :
      JsonText (.number x) s
  | emptyArray {blank : List Char} (hblank : IsBlank blank) :
      JsonText (.array []) ('[' :: (blank ++ [']']))
  | array {elements : List Json} {s : List Char}
      (helements : ElementsText elements s) :
      JsonText (.array elements) ('[' :: (s ++ [']']))
  | emptyObject {blank : List Char} (hblank : IsBlank blank) :
      JsonText (.object []) ('\x7b' :: (blank ++ ['\x7d']))
  | object {members : List (List Char × Json)} {s : List Char}
      (hmembers : MembersText members s) :
      JsonText (.object members) ('\x7b' :: (s ++ ['\x7d']))
  | before {j : Json} {blank s : List Char} (hblank : IsBlank blank)
      (htext : JsonText j s) : JsonText j (blank ++ s)
  | after {j : Json} {blank s : List Char} (hblank : IsBlank blank)
      (htext : JsonText j s) : JsonText j (s ++ blank)

inductive ElementsText : List Json → List Char → Prop where
  | single {j : Json} {s : List Char} (htext : JsonText j s) :
      ElementsText [j] s
  | cons {j : Json} {elements : List Json} {s t : List Char}
      (htext : JsonText j s) (helements : ElementsText elements t) :
      ElementsText (j :: elements) (s ++ ',' :: t)

inductive MembersText : List (List Char × Json) → List Char → Prop where
  | single {name blank s : List Char} {j : Json} (hblank : IsBlank blank)
      (hname : IsName name) (htext : JsonText j s) :
      MembersText [(name, j)]
        (blank ++ '"' :: (name ++ '"' :: ':' :: s))
  | cons {name blank s t : List Char} {j : Json}
      {members : List (List Char × Json)} (hblank : IsBlank blank)
      (hname : IsName name) (htext : JsonText j s)
      (hmembers : MembersText members t) :
      MembersText ((name, j) :: members)
        (blank ++ '"' :: (name ++ '"' :: ':' :: (s ++ ',' :: t)))

end

/-! ## Numbers -/

theorem numberText_nat (x : ℕ) : NumberText x (numeral 10 x) := by
  have htext := NumberText.plain (numeral_isNumeral x)
  rwa [decimal_numeral] at htext

theorem numberText_int (x : ℤ) :
    NumberText x ((if x < 0 then some '-' else none).toList ++
      numeral 10 x.natAbs) := by
  split
  · next hneg =>
    have htext := NumberText.negative (numeral_isNumeral x.natAbs)
    have hx : - (x.natAbs : ℤ) = x := by omega
    rwa [decimal_numeral, hx] at htext
  · next hpos =>
    have htext := numberText_nat x.natAbs
    have hx : (x.natAbs : ℤ) = x := by omega
    rwa [hx] at htext

/-! ## Lines -/

theorem IsBlank.append {first second : List Char} (hfirst : IsBlank first)
    (hsecond : IsBlank second) : IsBlank (first ++ second) := by
  intro c hc
  rcases List.mem_append.mp hc with hc | hc
  · exact hfirst c hc
  · exact hsecond c hc

theorem ElementsText.before {elements : List Json} {blank s : List Char}
    (hblank : IsBlank blank) (helements : ElementsText elements s) :
    ElementsText elements (blank ++ s) := by
  cases helements with
  | single htext => exact .single (htext.before hblank)
  | cons htext helements =>
    rw [← List.append_assoc]
    exact .cons (htext.before hblank) helements

theorem MembersText.before {members : List (List Char × Json)}
    {blank s : List Char} (hblank : IsBlank blank)
    (hmembers : MembersText members s) :
    MembersText members (blank ++ s) := by
  cases hmembers with
  | single hinner hname htext =>
    rw [← List.append_assoc]
    exact .single (hblank.append hinner) hname htext
  | cons hinner hname htext hmembers =>
    rw [← List.append_assoc]
    exact .cons (hblank.append hinner) hname htext hmembers

/-- The text of a member on a line of its own, up to the comma. -/
def memberText (indent name value : List Char) : List Char :=
  indent ++ '"' :: (name ++ '"' :: ':' :: ' ' :: value)

theorem MembersText.line {indent name value rest : List Char} {j : Json}
    {members : List (List Char × Json)} (hindent : IsBlank indent)
    (hname : IsName name) (htext : JsonText j value)
    (hmembers : MembersText members rest) :
    MembersText ((name, j) :: members)
      (memberText indent name value ++ [',', '\n'] ++ rest) := by
  have hspace : IsBlank [' '] := by simp [IsBlank]
  have hline : IsBlank ['\n'] := by simp [IsBlank]
  have hcons := MembersText.cons hindent hname (htext.before hspace)
    (hmembers.before hline)
  simpa [memberText] using hcons

theorem MembersText.lastLine {indent name value : List Char} {j : Json}
    (hindent : IsBlank indent) (hname : IsName name)
    (htext : JsonText j value) :
    MembersText [(name, j)] (memberText indent name value ++ ['\n']) := by
  have hspace : IsBlank [' '] := by simp [IsBlank]
  have hline : IsBlank ['\n'] := by simp [IsBlank]
  have hsingle := MembersText.single hindent hname
    ((htext.before hspace).after hline)
  simpa [memberText] using hsingle

theorem ElementsText.line {value rest : List Char} {j : Json}
    {elements : List Json} (htext : JsonText j value)
    (helements : ElementsText elements rest) :
    ElementsText (j :: elements) (value ++ [',', '\n'] ++ rest) := by
  have hline : IsBlank ['\n'] := by simp [IsBlank]
  have hcons := ElementsText.cons htext (helements.before hline)
  simpa using hcons

/-- A list of members, each on a line of its own, before other members. -/
theorem MembersText.lines {ι : Type} {indent rest : List Char}
    {members : List (List Char × Json)} (hindent : IsBlank indent)
    (list : List ι) (name value : ι → List Char) (j : ι → Json)
    (hname : ∀ i ∈ list, IsName (name i))
    (htext : ∀ i ∈ list, JsonText (j i) (value i))
    (hmembers : MembersText members rest) :
    MembersText (list.map (fun i => (name i, j i)) ++ members)
      (list.flatMap (fun i =>
        memberText indent (name i) (value i) ++ [',', '\n']) ++ rest) := by
  induction list with
  | nil => exact hmembers
  | cons i list ih =>
    rw [List.forall_mem_cons] at hname htext
    rw [List.map_cons, List.cons_append, List.flatMap_cons,
      List.append_assoc]
    exact .line hindent hname.1 htext.1 (ih hname.2 htext.2)

/-- A list of elements, each on a line of its own, and a last one. -/
theorem ElementsText.lines {ι : Type} (list : List ι) (last : ι)
    (value : ι → List Char) (j : ι → Json)
    (htext : ∀ i, JsonText (j i) (value i)) :
    ElementsText (list.map j ++ [j last])
      (list.flatMap (fun i => value i ++ [',', '\n']) ++
        (value last ++ ['\n'])) := by
  induction list with
  | nil =>
    have hline : IsBlank ['\n'] := by simp [IsBlank]
    have hlast : ElementsText [j last] (value last ++ ['\n']) :=
      .single ((htext last).after hline)
    simpa using hlast
  | cons i list ih =>
    rw [List.map_cons, List.cons_append, List.flatMap_cons,
      List.append_assoc]
    exact .line (htext i) ih

/-! ## Values on several lines -/

theorem ElementsText.after {elements : List Json} {blank s : List Char}
    (hblank : IsBlank blank) (helements : ElementsText elements s) :
    ElementsText elements (s ++ blank) := by
  induction elements generalizing s with
  | nil => cases helements
  | cons j elements ih =>
    cases helements with
    | single htext => exact .single (htext.after hblank)
    | cons htext helements =>
      rw [List.append_assoc]
      exact .cons htext (ih helements)

theorem MembersText.after {members : List (List Char × Json)}
    {blank s : List Char} (hblank : IsBlank blank)
    (hmembers : MembersText members s) :
    MembersText members (s ++ blank) := by
  induction members generalizing s with
  | nil => cases hmembers
  | cons member members ih =>
    cases hmembers with
    | single hinner hname htext =>
      have hsingle := MembersText.single hinner hname (htext.after hblank)
      simpa using hsingle
    | cons hinner hname htext hmembers =>
      have hcons := MembersText.cons hinner hname htext (ih hmembers)
      simpa using hcons

theorem JsonText.block {members : List (List Char × Json)}
    {indent s : List Char} (hindent : IsBlank indent)
    (hmembers : MembersText members s) :
    JsonText (.object members)
      ('\x7b' :: '\n' :: (s ++ (indent ++ ['\x7d']))) := by
  have hline : IsBlank ['\n'] := by simp [IsBlank]
  have hobject := JsonText.object
    ((hmembers.before hline).after hindent)
  simpa using hobject

theorem JsonText.arrayBlock {elements : List Json} {indent s : List Char}
    (hindent : IsBlank indent) (helements : ElementsText elements s) :
    JsonText (.array elements)
      ('[' :: '\n' :: (s ++ (indent ++ [']']))) := by
  have hline : IsBlank ['\n'] := by simp [IsBlank]
  have harray := JsonText.array ((helements.before hline).after hindent)
  simpa using harray

end Palloc
