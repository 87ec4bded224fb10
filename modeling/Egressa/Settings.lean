import Mathlib

/-!
# Settings

Text in nested sections:

    name {
      key = value
    }

Blanks separate words, a value runs to the end of its line, and a `#` starts a comment; a brace opens or closes a
section wherever it stands, also within a value.

`Writes s items` says that `s` is read as `items` wherever it stands between two lines.  It is composed like the text
itself, line by line and section by section, from words without special characters (`Word`).
-/

namespace Settings

/-! ## Reading -/

def blank (c : Char) : Bool := c == ' ' || c == '\t' || c == '\n' || c == '\r'

def stops (c : Char) : Bool := c == '\n' || c == '#' || c == '{' || c == '}'

def special (c : Char) : Bool := blank c || stops c || c == '='

inductive Token where
  | word (w : String)
  | value (v : String)
  | opening
  | closing
  deriving DecidableEq, Repr

/-- What a reader is in the middle of.  The characters of a word or value stand in reverse. -/
inductive Mode where
  | between
  | comment
  | word (w : List Char)
  | value (v : List Char)
  deriving DecidableEq, Repr

def trim (l : List Char) : List Char := ((l.dropWhile blank).reverse.dropWhile blank).reverse

def start (c : Char) : List Token × Mode :=
  if c == '#' then ([], .comment)
  else if c == '{' then ([.opening], .between)
  else if c == '}' then ([.closing], .between)
  else if c == '=' then ([], .value [])
  else if blank c then ([], .between)
  else ([], .word [c])

def Mode.token : Mode → List Token
  | word w => [.word (String.ofList w.reverse)]
  | value v => [.value (String.ofList (trim v.reverse))]
  | _ => []

/-- One character of the scanner. -/
def Mode.step : Mode → Char → List Token × Mode
  | between, c => start c
  | comment, c => ([], if c == '\n' then between else comment)
  | word w, c => if special c then ((word w).token ++ (start c).1, (start c).2) else ([], word (c :: w))
  | value v, c => if stops c then ((value v).token ++ (start c).1, (start c).2) else ([], value (c :: v))

def scan : Mode → List Char → List Token × Mode
  | m, [] => ([], m)
  | m, c :: cs => ((m.step c).1 ++ (scan (m.step c).2 cs).1, (scan (m.step c).2 cs).2)

/-- The tokens of a text. -/
def tokens (s : String) : List Token := (scan .between s.toList).1 ++ (scan .between s.toList).2.token

/-- An entry or a section of a settings file. -/
inductive Item where
  | entry (key value : String)
  | sect (name : String) (items : List Item)

def Item.name : Item → String
  | entry key _ => key
  | sect name _ => name

/-- The sections that are open, each with its name and the items before it, and the items so far; in reverse. -/
def parse : List Token → List (String × List Item) → List Item → Option (List Item)
  | [], [], items => some items.reverse
  | .word name :: .opening :: ts, up, items => parse ts ((name, items) :: up) []
  | .word key :: .value v :: ts, up, items => parse ts up (.entry key v :: items)
  | .closing :: ts, (name, before) :: up, items => parse ts up (.sect name items.reverse :: before)
  | _, _, _ => none

/-- The parser of strongSwan settings, as far as the files need it. -/
def read (s : String) : Option (List Item) := parse (tokens s) [] []

example : read "a \x7b\n  # b\n  k = 1,2\n\x7d\n" = some [.sect "a" [.entry "k" "1,2"]] := rfl

/-! ## Items as tokens -/

mutual

def Item.written : Item → List Token
  | .entry key v => [.word key, .value v]
  | .sect name items => .word name :: .opening :: (written items ++ [.closing])

def written : List Item → List Token
  | [] => []
  | i :: items => i.written ++ written items

end

mutual

def Item.texts : Item → List String
  | .entry _ v => [v]
  | .sect name items => name :: texts items

def texts : List Item → List String
  | [] => []
  | i :: items => i.texts ++ texts items

end

theorem texts_sect (name : String) (items : List Item) : texts [.sect name items] = name :: texts items := by
  rw [texts, texts, Item.texts, List.append_nil]

theorem texts_append (a b : List Item) : texts (a ++ b) = texts a ++ texts b := by
  induction a with
  | nil => rfl
  | cons i a ih => rw [List.cons_append, texts, texts, ih, List.append_assoc]

theorem written_append (a b : List Item) : written (a ++ b) = written a ++ written b := by
  induction a with
  | nil => rfl
  | cons i a ih => rw [List.cons_append, written, written, ih, List.append_assoc]

mutual

theorem parse_item (i : Item) (ts : List Token) (up : List (String × List Item)) (items : List Item) :
    parse (i.written ++ ts) up items = parse ts up (i :: items) := by
  cases i with
  | entry key v => rfl
  | sect name inner =>
    rw [Item.written, List.cons_append, List.cons_append, List.append_assoc, parse, parse_items inner]
    rw [List.append_nil, List.singleton_append, parse, List.reverse_reverse]

theorem parse_items (l : List Item) (ts : List Token) (up : List (String × List Item)) (items : List Item) :
    parse (written l ++ ts) up items = parse ts up (l.reverse ++ items) := by
  cases l with
  | nil => rfl
  | cons i l =>
    rw [written, List.append_assoc, parse_item i, parse_items l, List.reverse_cons, List.append_assoc]
    rfl

end

/-! ## Writing -/

theorem scan_append (m : Mode) (s t : List Char) :
    scan m (s ++ t) = ((scan m s).1 ++ (scan (scan m s).2 t).1, (scan (scan m s).2 t).2) := by
  induction s generalizing m with
  | nil => rfl
  | cons c s ih => simp only [List.cons_append, scan, ih, List.append_assoc]

def Word (s : String) : Prop := s ≠ "" ∧ ∀ c ∈ s.toList, special c = false

/-- The text is read as these items. -/
structure Writes (s : String) (items : List Item) : Prop where
  scans : scan .between s.toList = (written items, .between)
  plain : ∀ w ∈ texts items, Word w

theorem read_of_writes {s : String} {items : List Item} (h : Writes s items) : read s = some items := by
  have parsed := parse_items items [] [] []
  rw [List.append_nil, List.append_nil] at parsed
  rw [read, tokens, h.scans]
  simp only [Mode.token, List.append_nil]
  rw [parsed, parse, List.reverse_reverse]

namespace Word

variable {s : String} (word : Word s)

include word

theorem toList_ne_nil : s.toList ≠ [] := fun h => word.1 (String.toList_eq_nil_iff.1 h)

theorem trim_toList (v : List Char) (blanks : ∀ c ∈ v, blank c = true) : trim (v ++ s.toList) = s.toList := by
  have plain : ∀ c ∈ s.toList, blank c = false := by
    intro c hc
    have := word.2 c hc
    simp only [special, Bool.or_eq_false_iff] at this
    exact this.1.1
  have left : (v ++ s.toList).dropWhile blank = s.toList := by
    rw [List.dropWhile_append_of_pos blanks]
    obtain ⟨c, l, hl⟩ := List.exists_cons_of_ne_nil word.toList_ne_nil
    rw [hl, List.dropWhile_cons_of_neg]
    simp [plain c (by simp [hl])]
  have right : s.toList.reverse.dropWhile blank = s.toList.reverse := by
    obtain ⟨c, l, hl⟩ := List.exists_cons_of_ne_nil (List.reverse_ne_nil_iff.2 word.toList_ne_nil)
    rw [hl, List.dropWhile_cons_of_neg]
    simp [plain c (by rw [← List.mem_reverse, hl]; simp)]
  rw [trim, left, right, List.reverse_reverse]

theorem scan_value (v : List Char) : scan (.value v) s.toList = ([], .value (s.toList.reverse ++ v)) := by
  have plain := word.2
  generalize s.toList = l at plain
  induction l generalizing v with
  | nil => rfl
  | cons c l ih =>
    have here : stops c = false := by
      have := plain c List.mem_cons_self
      simp only [special, Bool.or_eq_false_iff] at this
      exact this.1.2
    simp only [scan, Mode.step, here, Bool.false_eq_true, if_false, ih (c :: v) fun c hc =>
      plain c (List.mem_cons_of_mem _ hc), List.reverse_cons, List.append_assoc, List.singleton_append, List.nil_append]

theorem scan_between : scan .between s.toList = ([], .word s.toList.reverse) := by
  have rest : ∀ (l w : List Char), (∀ c ∈ l, special c = false) → scan (.word w) l = ([], .word (l.reverse ++ w)) := by
    intro l
    induction l with
    | nil => exact fun _ _ => rfl
    | cons c l ih =>
      intro w plain
      have here : special c = false := plain c List.mem_cons_self
      simp only [scan, Mode.step, here, Bool.false_eq_true, if_false, ih (c :: w) fun c hc =>
        plain c (List.mem_cons_of_mem _ hc), List.reverse_cons, List.append_assoc, List.singleton_append,
        List.nil_append]
  have plain := word.2
  obtain ⟨c, l, hl⟩ := List.exists_cons_of_ne_nil word.toList_ne_nil
  rw [hl] at plain ⊢
  have first : start c = ([], .word [c]) := by
    have := plain c List.mem_cons_self
    simp only [special, stops, Bool.or_eq_false_iff] at this
    simp [start, this]
  simp only [scan, Mode.step, first, rest l [c] fun c hc => plain c (List.mem_cons_of_mem _ hc), List.reverse_cons,
    List.nil_append]

end Word

theorem Word.append {s t : String} (word : Word s) (plain : ∀ c ∈ t.toList, special c = false) : Word (s ++ t) := by
  refine ⟨fun h => word.1 (String.append_eq_empty_iff.1 h).1, fun c hc => ?_⟩
  rw [String.toList_append, List.mem_append] at hc
  exact hc.elim (word.2 c) (plain c)

namespace Writes

variable {s t : String} {a b : List Item}

theorem empty : Writes "" [] := ⟨rfl, by simp [texts]⟩

theorem append (ha : Writes s a) (hb : Writes t b) : Writes (s ++ t) (a ++ b) where
  scans := by rw [String.toList_append, scan_append, ha.scans, hb.scans, written_append]
  plain := by
    rw [texts_append]
    exact List.forall_mem_append.2 ⟨ha.plain, hb.plain⟩

theorem ite {p : Prop} [Decidable p] (ha : p → Writes s a) (hb : ¬ p → Writes t b) :
    Writes (if p then s else t) (if p then a else b) := by
  by_cases hp : p
  · rw [if_pos hp, if_pos hp]
    exact ha hp
  · rw [if_neg hp, if_neg hp]
    exact hb hp

theorem line {pre key v : String} (hpre : scan .between pre.toList = ([.word key], .value [' '])) (word : Word v) :
    Writes (pre ++ v ++ "\n") [.entry key v] := by
  have value : String.ofList (trim (v.toList.reverse ++ [' ']).reverse) = v := by
    rw [List.reverse_append, List.reverse_reverse, List.reverse_singleton, word.trim_toList _ (by simp [blank]),
      String.ofList_toList]
  have ends : scan (.value (v.toList.reverse ++ [' '])) "\n".toList =
      ([.value (String.ofList (trim (v.toList.reverse ++ [' ']).reverse))], .between) := rfl
  rw [value] at ends
  refine ⟨?_, by simpa [texts, Item.texts] using word⟩
  rw [String.toList_append, String.toList_append, scan_append, scan_append, hpre, word.scan_value, ends]
  rfl

theorem sect {pre closes name : String} (hpre : scan .between pre.toList = ([], .between)) (word : Word name)
    (body : Writes s a) (hcloses : scan .between closes.toList = ([.closing], .between)) :
    Writes (pre ++ name ++ " \x7b\n" ++ s ++ closes) [.sect name a] := by
  have ends : scan (.word name.toList.reverse) " \x7b\n".toList =
      ([.word (String.ofList name.toList.reverse.reverse), .opening], .between) := rfl
  rw [List.reverse_reverse, String.ofList_toList] at ends
  have opens : scan .between (pre ++ name ++ " \x7b\n").toList = ([.word name, .opening], .between) := by
    rw [String.toList_append, String.toList_append, scan_append, scan_append, hpre, word.scan_between, ends]
    rfl
  refine ⟨?_, by simpa [texts, Item.texts] using ⟨word, body.plain⟩⟩
  rw [String.toList_append, String.toList_append, scan_append, scan_append, opens, body.scans, hcloses]
  simp [written, Item.written]

theorem join {α : Type*} {l : List α} {f : α → String} {g : α → Item} (h : ∀ x ∈ l, Writes (f x) [g x]) :
    Writes (String.join (l.map f)) (l.map g) := by
  induction l with
  | nil => exact empty
  | cons x l ih =>
    obtain ⟨first, rest⟩ := List.forall_mem_cons.1 h
    rw [List.map_cons, List.map_cons, String.join_cons]
    exact first.append (ih rest)

end Writes

/-! ## Lists -/

def commas (v : String) : List String := (v.toList.splitOn ',').map String.ofList

structure Element (s : String) : Prop where
  word : Word s
  single : ',' ∉ s.toList

theorem Element.append {s t : String} (element : Element s) (plain : ∀ c ∈ t.toList, special c = false ∧ c ≠ ',') :
    Element (s ++ t) where
  word := element.word.append fun c hc => (plain c hc).1
  single := by
    rw [String.toList_append, List.mem_append, not_or]
    exact ⟨element.single, fun hc => (plain ',' hc).2 rfl⟩

theorem Element.plain {s : String} (element : Element s) : ∀ c ∈ s.toList, special c = false ∧ c ≠ ',' :=
  fun c hc => ⟨element.word.2 c hc, fun comma => element.single (comma ▸ hc)⟩

theorem commas_intercalate {l : List String} (some_ : l ≠ []) (elements : ∀ s ∈ l, Element s) :
    commas (",".intercalate l) = l := by
  have separate : ∀ s ∈ l.map String.toList, ',' ∉ s := by
    intro s hs
    obtain ⟨t, ht, rfl⟩ := List.mem_map.1 hs
    exact (elements t ht).single
  have comma : ",".toList = [','] := rfl
  rw [commas, String.toList_intercalate, comma, List.splitOn_intercalate ',' separate (by simpa using some_),
    List.map_map]
  simp [Function.comp_def]

theorem Element.commas {s : String} (element : Element s) : commas s = [s] := by
  have one := commas_intercalate (l := [s]) (by simp) (by simpa using element)
  rwa [String.intercalate_singleton] at one

theorem Word.intercalate {l : List String} (some_ : l ≠ []) (words : ∀ s ∈ l, Word s) : Word (",".intercalate l) := by
  induction l with
  | nil => exact absurd rfl some_
  | cons s l ih =>
    obtain ⟨first, rest⟩ := List.forall_mem_cons.1 words
    cases l with
    | nil => rwa [String.intercalate_singleton]
    | cons t l =>
      rw [String.intercalate_cons_cons]
      have comma : Word (s ++ ",") := first.append (by simp [special, blank, stops])
      exact comma.append (ih (by simp) rest).2

end Settings
