import MiniPL.Proofs.Layout
import MiniPL.Proofs.Lines
import MiniPL.Proofs.Writing
import MiniPL.Syntax.Outline

/-!
# Outlines tell programs apart

From the text of its outline a program can be told, up to the places of its parts.  The text gives
the lines, because no label holds a line feed; the lines give the outline, because the depth of a
line is the number of blanks in front of its label (`Outline.linesAll_inj`); a label gives the kind
of its part by its first word, and the rest by what stands behind the first blank; and quoted texts
are told apart because the escape of a character tells where it ends
(`Text.Quoted.escape_append_inj`).

Main statement: `outlineText_eq_iff`.
-/

namespace MiniPL

/-! ### Quoted texts -/

namespace Text.Quoted

/-- The letters behind a backslash that stand for single characters. -/
def named : List (Char × Char) :=
  [('0', '\x00'), ('t', '\t'), ('n', '\n'), ('r', '\r'), ('"', '"'), ('\\', '\\')]

theorem named_inj : ∀ p ∈ named, ∀ q ∈ named, p.1 = q.1 → p.2 = q.2 := by
  decide

theorem plain_of_mem_named : ∀ p ∈ named, p.1 ≠ 'u' ∧ p.1 ≠ '\n' := by
  decide

theorem digitChar_inj : ∀ m < 16, ∀ n < 16, Nat.digitChar m = Nat.digitChar n → m = n := by
  decide

theorem plain_digitChar : ∀ n < 16, Nat.digitChar n ≠ '\x7d' ∧ Nat.digitChar n ≠ '\n' := by
  decide

theorem toDigits_inj (m n : Nat) (h : Nat.toDigits 16 m = Nat.toDigits 16 n) : m = n := by
  rcases Nat.lt_or_ge m 16 with hm | hm <;> rcases Nat.lt_or_ge n 16 with hn | hn
  · rw [Nat.toDigits_of_lt_base hm, Nat.toDigits_of_lt_base hn] at h
    exact digitChar_inj m hm n hn (List.cons.inj h).1
  · rw [Nat.toDigits_of_lt_base hm, Nat.toDigits_of_base_le (by decide) hn] at h
    rw [← List.nil_append [m.digitChar]] at h
    exact absurd (List.append_inj' h rfl).1.symm Nat.toDigits_ne_nil
  · rw [Nat.toDigits_of_base_le (by decide) hm, Nat.toDigits_of_lt_base hn] at h
    rw [← List.nil_append [n.digitChar]] at h
    exact absurd (List.append_inj' h rfl).1 Nat.toDigits_ne_nil
  · rw [Nat.toDigits_of_base_le (by decide) hm, Nat.toDigits_of_base_le (by decide) hn] at h
    obtain ⟨hdiv, hmod⟩ := List.append_inj' h rfl
    have hdiv' : m / 16 = n / 16 := toDigits_inj (m / 16) (n / 16) hdiv
    have hmod' : m % 16 = n % 16 := digitChar_inj _ (Nat.mod_lt _ (by decide)) _
      (Nat.mod_lt _ (by decide)) (List.cons.inj hmod).1
    omega
termination_by m

theorem exists_digitChar_of_mem (n : Nat) {c : Char} (h : c ∈ Nat.toDigits 16 n) :
    ∃ d < 16, c = Nat.digitChar d := by
  rcases Nat.lt_or_ge n 16 with hn | hn
  · rw [Nat.toDigits_of_lt_base hn] at h
    exact ⟨n, hn, List.mem_singleton.1 h⟩
  · rw [Nat.toDigits_of_base_le (by decide) hn] at h
    rcases List.mem_append.1 h with h | h
    · exact exists_digitChar_of_mem (n / 16) h
    · exact ⟨n % 16, Nat.mod_lt _ (by decide), List.mem_singleton.1 h⟩
termination_by n

/-- A digit of a code point is neither a closing brace nor a line feed. -/
theorem plain_of_mem_hex {c d : Char} (h : d ∈ hex c) : d ≠ '\x7d' ∧ d ≠ '\n' := by
  obtain ⟨n, hn, rfl⟩ := exists_digitChar_of_mem c.toNat h
  exact plain_digitChar n hn

/-- A character stands for itself, or has a letter of its own, or is given by its code point. -/
theorem escape_cases (c : Char) :
    (escape c = [c] ∧ c ≠ '\\' ∧ c ≠ '\n') ∨
      (∃ p ∈ named, escape c = ['\\', p.1] ∧ c = p.2) ∨
      escape c = '\\' :: 'u' :: '\x7b' :: (hex c ++ ['\x7d']) := by
  unfold escape
  by_cases h₀ : c = '\x00'
  · exact .inr (.inl ⟨('0', '\x00'), by decide, if_pos h₀, h₀⟩)
  by_cases h₁ : c = '\t'
  · exact .inr (.inl ⟨('t', '\t'), by decide, by rw [if_neg h₀, if_pos h₁], h₁⟩)
  by_cases h₂ : c = '\n'
  · exact .inr (.inl ⟨('n', '\n'), by decide, by rw [if_neg h₀, if_neg h₁, if_pos h₂], h₂⟩)
  by_cases h₃ : c = '\r'
  · exact .inr (.inl ⟨('r', '\r'), by decide,
      by rw [if_neg h₀, if_neg h₁, if_neg h₂, if_pos h₃], h₃⟩)
  by_cases h₄ : c = '"'
  · exact .inr (.inl ⟨('"', '"'), by decide,
      by rw [if_neg h₀, if_neg h₁, if_neg h₂, if_neg h₃, if_pos h₄], h₄⟩)
  by_cases h₅ : c = '\\'
  · exact .inr (.inl ⟨('\\', '\\'), by decide,
      by rw [if_neg h₀, if_neg h₁, if_neg h₂, if_neg h₃, if_neg h₄, if_pos h₅], h₅⟩)
  rw [if_neg h₀, if_neg h₁, if_neg h₂, if_neg h₃, if_neg h₄, if_neg h₅]
  by_cases h₆ : isUnprintable c = true
  · exact .inr (.inr (if_pos h₆))
  · exact .inl ⟨if_neg h₆, h₅, h₂⟩

/-- The escape of a character tells where it ends, and which character it is. -/
theorem escape_append_inj {c d : Char} {xs ys : List Char}
    (h : escape c ++ xs = escape d ++ ys) : c = d ∧ xs = ys := by
  rcases escape_cases c with ⟨hc, hslash, -⟩ | ⟨p, hp, hc, rfl⟩ | hc <;>
    rcases escape_cases d with ⟨hd, hslash', -⟩ | ⟨q, hq, hd, rfl⟩ | hd <;>
    rw [hc, hd] at h
  · exact List.cons.inj h
  · exact absurd (List.cons.inj h).1 hslash
  · exact absurd (List.cons.inj h).1 hslash
  · exact absurd (List.cons.inj h).1.symm hslash'
  · obtain ⟨hletter, hrest⟩ := List.cons.inj (List.cons.inj h).2
    exact ⟨named_inj p hp q hq hletter, hrest⟩
  · exact absurd (List.cons.inj (List.cons.inj h).2).1 (plain_of_mem_named p hp).1
  · exact absurd (List.cons.inj h).1.symm hslash'
  · exact absurd (List.cons.inj (List.cons.inj h).2).1.symm (plain_of_mem_named q hq).1
  · simp only [List.cons_append, List.append_assoc, List.nil_append, List.cons.injEq,
      true_and] at h
    obtain ⟨hhex, hrest⟩ := append_cons_inj (fun hmem => (plain_of_mem_hex hmem).1 rfl)
      (fun hmem => (plain_of_mem_hex hmem).1 rfl) h
    exact ⟨Char.toNat_inj.1 (toDigits_inj _ _ hhex), hrest⟩

theorem escape_ne_nil (c : Char) : escape c ≠ [] := by
  rcases escape_cases c with ⟨hc, -⟩ | ⟨p, -, hc, -⟩ | hc <;> rw [hc] <;> exact List.cons_ne_nil _ _

theorem flatMap_escape_inj {xs ys : List Char} (h : xs.flatMap escape = ys.flatMap escape) :
    xs = ys := by
  induction xs generalizing ys with
  | nil =>
    cases ys with
    | nil => rfl
    | cons y ys => exact absurd (List.append_eq_nil_iff.1 h.symm).1 (escape_ne_nil y)
  | cons x xs ih =>
    cases ys with
    | nil => exact absurd (List.append_eq_nil_iff.1 h).1 (escape_ne_nil x)
    | cons y ys =>
      obtain ⟨rfl, hrest⟩ := escape_append_inj (by simpa only [List.flatMap_cons] using h)
      rw [ih hrest]

theorem encode_inj {text text' : String} (h : encode text = encode text') : text = text' := by
  have hlist := (List.cons.inj (String.ofList_inj.1 h)).2
  exact String.toList_inj.1 (flatMap_escape_inj (List.append_inj' hlist rfl).1)

theorem lineFeed_notMem_encode (text : String) : '\n' ∉ (encode text).toList := by
  have hescape : ∀ c, '\n' ∉ escape c := by
    intro c hmem
    rcases escape_cases c with ⟨hc, -, hne⟩ | ⟨p, hp, hc, -⟩ | hc <;> rw [hc] at hmem
    · exact hne (List.mem_singleton.1 hmem).symm
    · simp only [List.mem_cons, List.not_mem_nil, or_false] at hmem
      rcases hmem with h | h
      · exact absurd h (by decide)
      · exact (plain_of_mem_named p hp).2 h.symm
    · simp only [List.mem_cons, List.mem_append, List.not_mem_nil, or_false] at hmem
      rcases hmem with h | h | h | h | h
      · exact absurd h (by decide)
      · exact absurd h (by decide)
      · exact absurd h (by decide)
      · exact (plain_of_mem_hex h).2 rfl
      · exact absurd h (by decide)
  rw [encode, String.toList_ofList]
  simp only [List.cons_append, List.mem_cons, List.mem_append, List.mem_flatMap, List.not_mem_nil,
    or_false, not_or, not_exists, not_and]
  exact ⟨by decide, fun c _ => hescape c, by decide⟩

end Text.Quoted

/-! ### Lines and labels -/

namespace Outline

/-- A line of an outline: a label behind two blanks for each level. -/
def line (depth : Nat) (label : String) : String :=
  String.ofList (List.replicate (2 * depth) ' ') ++ label

theorem lines_node (depth : Nat) (label : String) (children : List Outline) :
    lines depth (node label children) = line depth label :: linesAll (depth + 1) children := by
  rw [lines]
  rfl

/-- A label can be told from the blanks in front of it, and from the next line. -/
structure IsLabel (label : String) : Prop where
  first : ∃ c cs, label.toList = c :: cs ∧ c ≠ ' '
  flat : '\n' ∉ label.toList

mutual

/-- Whether every label of an outline is one. -/
def Labelled : Outline → Prop
  | node label children => IsLabel label ∧ LabelledAll children

/-- Whether every label of several outlines is one. -/
def LabelledAll : List Outline → Prop
  | [] => True
  | outline :: rest => outline.Labelled ∧ LabelledAll rest

end

theorem replicate_append_inj {m n : Nat} {c d : Char} {cs ds : List Char} (hc : c ≠ ' ')
    (hd : d ≠ ' ') (h : List.replicate m ' ' ++ c :: cs = List.replicate n ' ' ++ d :: ds) :
    m = n ∧ c :: cs = d :: ds := by
  induction m generalizing n with
  | zero =>
    cases n with
    | zero => exact ⟨rfl, h⟩
    | succ n => exact absurd (List.cons.inj h).1 hc
  | succ m ih =>
    cases n with
    | zero => exact absurd (List.cons.inj h).1.symm hd
    | succ n =>
      obtain ⟨rfl, hrest⟩ := ih (List.cons.inj h).2
      exact ⟨rfl, hrest⟩

theorem line_inj {depth depth' : Nat} {label label' : String} (h : IsLabel label)
    (h' : IsLabel label') (heq : line depth label = line depth' label') :
    depth = depth' ∧ label = label' := by
  obtain ⟨c, cs, hlabel, hc⟩ := h.first
  obtain ⟨d, ds, hlabel', hd⟩ := h'.first
  have hlist := congrArg String.toList heq
  simp only [line, String.toList_append, String.toList_ofList, hlabel, hlabel'] at hlist
  obtain ⟨hdepth, hrest⟩ := replicate_append_inj hc hd hlist
  exact ⟨by omega, String.toList_inj.1 (by rw [hlabel, hlabel', hrest])⟩

/-- The first of the lines, if there is one, stands less deep than the lines of outlines at a
depth. -/
def EndsAbove (depth : Nat) (lines : List String) : Prop :=
  ∀ first, lines.head? = some first →
    ∃ depth' label, depth' < depth ∧ IsLabel label ∧ first = line depth' label

theorem EndsAbove.ne_linesAll {depth : Nat} {outline : Outline} {outlines : List Outline}
    {rest rest' : List String} (h : EndsAbove depth rest) (hlabelled : outline.Labelled) :
    rest ≠ linesAll depth (outline :: outlines) ++ rest' := by
  rintro rfl
  cases outline with
  | node label children =>
    rw [linesAll, lines_node] at h
    obtain ⟨depth', label', hlt, hlabel', hline⟩ := h _ rfl
    rw [Labelled] at hlabelled
    exact absurd (line_inj hlabelled.1 hlabel' hline).1 (by omega)

/-- Behind the lines below a label stand the lines of the outlines beside it, which are less deep,
or those behind all of them. -/
theorem endsAbove_linesAll {depth : Nat} {outlines : List Outline} {rest : List String}
    (hlabelled : LabelledAll outlines) (h : EndsAbove depth rest) :
    EndsAbove (depth + 1) (linesAll depth outlines ++ rest) := by
  intro first hfirst
  cases outlines with
  | nil =>
    obtain ⟨depth', label, hlt, hlabel, hline⟩ := h first hfirst
    exact ⟨depth', label, by omega, hlabel, hline⟩
  | cons outline outlines =>
    cases outline with
    | node label children =>
      rw [LabelledAll, Labelled] at hlabelled
      rw [linesAll, lines_node] at hfirst
      exact ⟨depth, label, by omega, hlabelled.1.1, (Option.some.inj hfirst).symm⟩

/-- The lines of outlines tell the outlines, and what stands behind them. -/
theorem linesAll_inj {depth : Nat} : ∀ {outlines outlines' : List Outline}
    {rest rest' : List String}, LabelledAll outlines → LabelledAll outlines' →
      EndsAbove depth rest → EndsAbove depth rest' →
      linesAll depth outlines ++ rest = linesAll depth outlines' ++ rest' →
      outlines = outlines' ∧ rest = rest'
  | [], [], _, _, _, _, _, _, heq => ⟨rfl, heq⟩
  | [], outline :: outlines, _, _, _, h', hrest, _, heq => by
    rw [LabelledAll] at h'
    exact absurd heq (hrest.ne_linesAll h'.1)
  | outline :: outlines, [], _, _, h, _, _, hrest', heq => by
    rw [LabelledAll] at h
    exact absurd heq.symm (hrest'.ne_linesAll h.1)
  | node label children :: outlines, node label' children' :: outlines', rest, rest', h, h', hrest,
      hrest', heq => by
    rw [LabelledAll, Labelled] at h h'
    simp only [linesAll, lines_node, List.cons_append, List.append_assoc] at heq
    obtain ⟨hline, hbelow⟩ := List.cons.inj heq
    obtain ⟨-, rfl⟩ := line_inj h.1.1 h'.1.1 hline
    obtain ⟨rfl, hbeside⟩ := linesAll_inj h.1.2 h'.1.2 (endsAbove_linesAll h.2 hrest)
      (endsAbove_linesAll h'.2 hrest') hbelow
    obtain ⟨rfl, rfl⟩ := linesAll_inj h.2 h'.2 hrest hrest' hbeside
    exact ⟨rfl, rfl⟩

mutual

theorem flat_lines (depth : Nat) : ∀ {outline : Outline}, outline.Labelled →
    ∀ line ∈ outline.lines depth, '\n' ∉ line.toList
  | node label children, h => by
    rw [Labelled] at h
    rw [lines_node]
    refine List.forall_mem_cons.2 ⟨?_, flat_linesAll (depth + 1) h.2⟩
    rw [line, String.toList_append, String.toList_ofList, List.mem_append, not_or]
    exact ⟨fun hmem => absurd (List.eq_of_mem_replicate hmem) (by decide), h.1.flat⟩

theorem flat_linesAll (depth : Nat) : ∀ {outlines : List Outline}, LabelledAll outlines →
    ∀ line ∈ linesAll depth outlines, '\n' ∉ line.toList
  | [], _ => fun _ hmem => nomatch hmem
  | outline :: outlines, h => by
    rw [LabelledAll] at h
    rw [linesAll]
    exact List.forall_mem_append.2 ⟨flat_lines depth h.1, flat_linesAll depth h.2⟩

end

/-- The text of an outline tells the outline. -/
theorem text_inj {outline outline' : Outline} (h : outline.Labelled) (h' : outline'.Labelled)
    (heq : outline.text = outline'.text) : outline = outline' := by
  have hlines : outline.lines 0 = outline'.lines 0 :=
    Text.unlines_inj (flat_lines 0 h) (flat_lines 0 h') heq
  have hnone : EndsAbove 0 [] := fun _ hfirst => nomatch hfirst
  have hall : linesAll 0 [outline] ++ [] = linesAll 0 [outline'] ++ [] := by
    simp only [linesAll, hlines]
  have hone : LabelledAll [outline] := by simpa only [LabelledAll, and_true] using h
  have hone' : LabelledAll [outline'] := by simpa only [LabelledAll, and_true] using h'
  exact (List.cons.inj (linesAll_inj hone hone' hnone hnone hall).1).1

end Outline

/-! ### Names -/

/-- The names in an expression. -/
def Expr.names (e : Expr) : List String :=
  e.mentions.map (·.name)

mutual

/-- The names in a statement, declared ones included. -/
def Statement.names : Statement → List String
  | .declaration name _ _ initializer => name :: initializer.elim [] Expr.names
  | .assignment target value => target.name :: value.names
  | .loop counter start stop body =>
    counter.name :: (start.names ++ stop.names ++ Block.names body)
  | .print value _ => value.names
  | .read target => [target.name]
  | .assert condition _ => condition.names

/-- The names in a block. -/
def Block.names : Block → List String
  | [] => []
  | v :: rest => v.names ++ Block.names rest

end

/-- The names are names of variables, as the lexer has them. -/
def AreNames (names : List String) : Prop :=
  ∀ name ∈ names, TokenKind.identifier.Admits name.toList

theorem AreNames.append {names names' : List String} :
    AreNames (names ++ names') ↔ AreNames names ∧ AreNames names' :=
  List.forall_mem_append

theorem AreNames.cons {name : String} {names : List String} :
    AreNames (name :: names) ↔ TokenKind.identifier.Admits name.toList ∧ AreNames names :=
  List.forall_mem_cons

namespace Outline

/-- A name holds neither a blank nor a line feed. -/
theorem plain_of_admits {name : List Char} (h : TokenKind.identifier.Admits name) :
    ' ' ∉ name ∧ '\n' ∉ name := by
  have hword : ∀ c ∈ name, Lexer.isWordChar c = true := by
    cases h with
    | identifier hfirst hothers =>
      exact List.forall_mem_cons.2 ⟨Lexer.isWordChar_of_isLetter hfirst, hothers⟩
    | sign hsign => cases hsign
  exact ⟨fun hmem => absurd (hword _ hmem) (by decide),
    fun hmem => absurd (hword _ hmem) (by decide)⟩

/-! ### Labels -/

/-- The first word of a label, and what stands behind the blank behind it. -/
theorem caption_inj {word word' detail detail' : String} (h : ' ' ∉ word.toList)
    (h' : ' ' ∉ word'.toList) (heq : word ++ " " ++ detail = word' ++ " " ++ detail') :
    word = word' ∧ detail = detail' := by
  have hlist := congrArg String.toList heq
  simp only [String.toList_append, List.append_assoc] at hlist
  obtain ⟨hword, hdetail⟩ := Text.append_cons_inj (a := ' ') h h' hlist
  exact ⟨String.toList_inj.1 hword, String.toList_inj.1 hdetail⟩

theorem isLabel_of_cons {label : String} {c : Char} {cs : List Char} (h : label.toList = c :: cs)
    (hc : c ≠ ' ') (hflat : '\n' ∉ label.toList) : IsLabel label :=
  ⟨⟨c, cs, h, hc⟩, hflat⟩

/-- A word alone is a label. -/
theorem isLabel_of_isAlpha {word : String} (h : word.toList ≠ [])
    (halpha : word.toList.all Char.isAlpha = true) : IsLabel word := by
  have hall := List.all_eq_true.1 halpha
  obtain ⟨c, cs, hcons⟩ := List.exists_cons_of_ne_nil h
  refine isLabel_of_cons hcons ?_ fun hmem => absurd (hall _ hmem) (by decide)
  rintro rfl
  exact absurd (hall ' ' (by rw [hcons]; exact List.mem_cons_self)) (by decide)

theorem isLabel_caption {word detail : String} (h : IsLabel word)
    (hdetail : '\n' ∉ detail.toList) : IsLabel (word ++ " " ++ detail) := by
  obtain ⟨c, cs, hcons, hc⟩ := h.first
  have htext : (word ++ " " ++ detail).toList = word.toList ++ ' ' :: detail.toList := by
    simp [String.toList_append]
  have hfirst : (word ++ " " ++ detail).toList = c :: (cs ++ ' ' :: detail.toList) := by
    rw [htext, hcons]
    rfl
  refine isLabel_of_cons hfirst hc ?_
  rw [htext, List.mem_append, List.mem_cons, not_or, not_or]
  exact ⟨h.flat, by decide, hdetail⟩

end Outline

/-! ### Expressions -/

theorem ValueType.word_inj {ty ty' : ValueType} (h : ty.word = ty'.word) : ty = ty' := by
  cases ty <;> cases ty' <;> first | rfl | exact absurd h (by decide)

theorem BinaryOp.symbol_inj {op op' : BinaryOp} (h : op.symbol = op'.symbol) : op = op' := by
  cases op <;> cases op' <;> first | rfl | exact absurd h (by decide)

/-- A name with a type, as labels show it. -/
def typedName (name : String) (ty : ValueType) : String :=
  name ++ " : " ++ ty.word

theorem toList_typedName (name : String) (ty : ValueType) :
    (typedName name ty).toList = name.toList ++ ' ' :: ':' :: ' ' :: ty.word.toList := by
  simp [typedName, String.toList_append]

theorem typedName_inj {name name' : String} {ty ty' : ValueType}
    (h : TokenKind.identifier.Admits name.toList) (h' : TokenKind.identifier.Admits name'.toList)
    (heq : typedName name ty = typedName name' ty') : name = name' ∧ ty = ty' := by
  have hlist := congrArg String.toList heq
  rw [toList_typedName, toList_typedName] at hlist
  obtain ⟨hname, hty⟩ := Text.append_cons_inj (Outline.plain_of_admits h).1
    (Outline.plain_of_admits h').1 hlist
  exact ⟨String.toList_inj.1 hname,
    ValueType.word_inj (String.toList_inj.1 (List.cons.inj (List.cons.inj hty).2).2)⟩

theorem typedName_ne {name name' : String} {ty : ValueType}
    (h' : TokenKind.identifier.Admits name'.toList) : typedName name ty ≠ name' := by
  rintro rfl
  refine (Outline.plain_of_admits h').1 ?_
  rw [toList_typedName]
  exact List.mem_append_right _ List.mem_cons_self

theorem flat_typedName {name : String} {ty : ValueType}
    (h : TokenKind.identifier.Admits name.toList) : '\n' ∉ (typedName name ty).toList := by
  rw [toList_typedName, List.mem_append, not_or]
  exact ⟨(Outline.plain_of_admits h).2, by cases ty <;> decide⟩

namespace Identifier

/-- What the label of a mention shows behind its first word. -/
def detail (identifier : Identifier) : String :=
  match identifier.ty with
  | some ty => typedName identifier.name ty
  | none => identifier.name

theorem outline_eq (identifier : Identifier) :
    identifier.outline = .leaf ("Identifier" ++ " " ++ identifier.detail) := by
  unfold outline detail
  cases identifier.ty with
  | none => rfl
  | some ty =>
    refine congrArg Outline.leaf (String.toList_inj.1 ?_)
    simp [typedName, String.toList_append]

theorem detail_inj {i j : Identifier} (h : TokenKind.identifier.Admits i.name.toList)
    (h' : TokenKind.identifier.Admits j.name.toList) (heq : i.detail = j.detail) :
    i.moved nowhere = j.moved nowhere := by
  obtain ⟨name, ty, position⟩ := i
  obtain ⟨name', ty', position'⟩ := j
  cases ty with
  | none =>
    cases ty' with
    | none =>
      obtain rfl : name = name' := heq
      rfl
    | some ty' => exact absurd heq.symm (typedName_ne h)
  | some ty =>
    cases ty' with
    | none => exact absurd heq (typedName_ne h')
    | some ty' =>
      obtain ⟨rfl, rfl⟩ := typedName_inj h h' heq
      rfl

theorem flat_detail {i : Identifier} (h : TokenKind.identifier.Admits i.name.toList) :
    '\n' ∉ i.detail.toList := by
  unfold detail
  cases i.ty with
  | none => exact (Outline.plain_of_admits h).2
  | some ty => exact flat_typedName h

theorem moved_eq_of_outline_eq {i j : Identifier} (h : TokenKind.identifier.Admits i.name.toList)
    (h' : TokenKind.identifier.Admits j.name.toList) (heq : i.outline = j.outline) :
    i.moved nowhere = j.moved nowhere := by
  rw [outline_eq, outline_eq] at heq
  exact detail_inj h h' (Outline.caption_inj (by decide) (by decide) (Outline.node.inj heq).1).2

theorem labelled_outline {i : Identifier} (h : TokenKind.identifier.Admits i.name.toList) :
    i.outline.Labelled := by
  rw [outline_eq, Outline.leaf, Outline.Labelled, Outline.LabelledAll]
  exact ⟨Outline.isLabel_caption (Outline.isLabel_of_isAlpha (by decide) (by decide))
    (flat_detail h), trivial⟩

end Identifier

namespace Expr

/-- The first word of the label of an expression. -/
def word : Expr → String
  | int _ => "Int"
  | string _ => "String"
  | bool _ => "Bool"
  | var _ => "Identifier"
  | not _ _ => "UnaryOp"
  | binary _ _ _ _ => "BinaryOp"

/-- The words that labels of expressions start with. -/
def words : List String :=
  ["Int", "String", "Bool", "Identifier", "UnaryOp", "BinaryOp"]

theorem word_mem (e : Expr) : e.word ∈ words := by
  cases e <;> simp only [word, words, List.mem_cons, true_or, or_true]

/-- What the label of an expression shows behind its first word. -/
def detail : Expr → String
  | int n => Text.Decimal.write n
  | string s => Text.Quoted.encode s
  | bool b => if b then "true" else "false"
  | var identifier => identifier.detail
  | not _ _ => "!"
  | binary op _ _ _ => op.symbol

/-- The operands of an expression. -/
def operands : Expr → List Expr
  | not operand _ => [operand]
  | binary _ left right _ => [left, right]
  | _ => []

theorem outline_eq (e : Expr) :
    e.outline = .node (e.word ++ " " ++ e.detail) (e.operands.map outline) := by
  cases e with
  | var identifier => exact identifier.outline_eq
  | _ => rfl

theorem outline_inj {e e' : Expr} (h : e.outline = e'.outline) :
    e.word = e'.word ∧ e.detail = e'.detail ∧
      e.operands.map outline = e'.operands.map outline := by
  have hplain : ∀ word ∈ words, ' ' ∉ word.toList := by decide
  rw [outline_eq, outline_eq e'] at h
  obtain ⟨hlabel, hbelow⟩ := Outline.node.inj h
  obtain ⟨hword, hdetail⟩ :=
    Outline.caption_inj (hplain _ e.word_mem) (hplain _ e'.word_mem) hlabel
  exact ⟨hword, hdetail, hbelow⟩

theorem isLabel_word (e : Expr) : Outline.IsLabel e.word := by
  have hwords : ∀ word ∈ words, word.toList ≠ [] ∧ word.toList.all Char.isAlpha = true := by
    decide
  obtain ⟨hne, halpha⟩ := hwords e.word e.word_mem
  exact Outline.isLabel_of_isAlpha hne halpha

theorem flat_detail {e : Expr} (h : AreNames e.names) : '\n' ∉ e.detail.toList := by
  cases e with
  | int n =>
    have hdigits : ∀ m : Nat, '\n' ∉ Nat.toDigits 10 m := fun m hmem =>
      absurd (Nat.isDigit_of_mem_toDigits (by decide) (by decide) hmem) (by decide)
    show '\n' ∉ (String.ofList (Text.Decimal.writeChars n)).toList
    rw [String.toList_ofList, Text.Decimal.writeChars]
    split
    · exact List.not_mem_cons_of_ne_of_not_mem (by decide) (hdigits _)
    · exact hdigits _
  | string s => exact Text.Quoted.lineFeed_notMem_encode s
  | bool b => cases b <;> decide
  | var identifier => exact Identifier.flat_detail (h _ (List.mem_singleton_self _))
  | not operand position =>
    show '\n' ∉ "!".toList
    decide
  | binary op left right position =>
    show '\n' ∉ op.symbol.toList
    cases op <;> decide

theorem names_binary (op : BinaryOp) (left right : Expr) (position : Position) :
    (binary op left right position).names = left.names ++ right.names :=
  List.map_append

theorem labelled_outline {e : Expr} (h : AreNames e.names) : e.outline.Labelled := by
  induction e with
  | not operand position ih =>
    rw [outline_eq, Outline.Labelled]
    refine ⟨Outline.isLabel_caption (isLabel_word _) (flat_detail h), ?_⟩
    simpa only [operands, List.map_cons, List.map_nil, Outline.LabelledAll, and_true] using ih h
  | binary op left right position ihleft ihright =>
    rw [outline_eq, Outline.Labelled]
    refine ⟨Outline.isLabel_caption (isLabel_word _) (flat_detail h), ?_⟩
    rw [names_binary, AreNames.append] at h
    simpa only [operands, List.map_cons, List.map_nil, Outline.LabelledAll, and_true] using
      ⟨ihleft h.1, ihright h.2⟩
  | _ =>
    rw [outline_eq, Outline.Labelled]
    refine ⟨Outline.isLabel_caption (isLabel_word _) (flat_detail h), ?_⟩
    simp only [operands, List.map_nil, Outline.LabelledAll]

/-- An expression can be told from its outline, up to places. -/
theorem moved_eq_of_outline_eq {e e' : Expr} (h : AreNames e.names) (h' : AreNames e'.names)
    (heq : e.outline = e'.outline) : e.moved nowhere = e'.moved nowhere := by
  induction e generalizing e' with
  | int n =>
    obtain ⟨hword, hdetail, -⟩ := outline_inj heq
    cases e' with
    | int n' =>
      have hread := congrArg Text.Decimal.read? hdetail
      simp only [detail, Text.Decimal.read?_write, Option.some.injEq] at hread
      rw [hread]
    | _ => simp [word] at hword
  | string text =>
    obtain ⟨hword, hdetail, -⟩ := outline_inj heq
    cases e' with
    | string text' => rw [Text.Quoted.encode_inj hdetail]
    | _ => simp [word] at hword
  | bool b =>
    obtain ⟨hword, hdetail, -⟩ := outline_inj heq
    cases e' with
    | bool b' => cases b <;> cases b' <;> first | rfl | exact absurd hdetail (by decide)
    | _ => simp [word] at hword
  | var identifier =>
    obtain ⟨hword, hdetail, -⟩ := outline_inj heq
    cases e' with
    | var identifier' =>
      exact congrArg var (Identifier.detail_inj (h _ (List.mem_singleton_self _))
        (h' _ (List.mem_singleton_self _)) hdetail)
    | _ => simp [word] at hword
  | not operand position ih =>
    obtain ⟨hword, -, hbelow⟩ := outline_inj heq
    cases e' with
    | not operand' position' =>
      have hoperand : operand.outline = operand'.outline := (List.cons.inj hbelow).1
      exact congrArg (not · .unknown) (ih h h' hoperand)
    | _ => simp [word] at hword
  | binary op left right position ihleft ihright =>
    obtain ⟨hword, hdetail, hbelow⟩ := outline_inj heq
    cases e' with
    | binary op' left' right' position' =>
      obtain rfl : op = op' := BinaryOp.symbol_inj hdetail
      obtain ⟨hleft, hright⟩ := List.cons.inj hbelow
      rw [names_binary, AreNames.append] at h h'
      have hl : left.moved nowhere = left'.moved nowhere := ihleft h.1 h'.1 hleft
      have hr : right.moved nowhere = right'.moved nowhere :=
        ihright h.2 h'.2 (List.cons.inj hright).1
      show binary op (left.moved nowhere) (right.moved nowhere) .unknown = _
      rw [hl, hr]
      rfl
    | _ => simp [word] at hword

end Expr

/-! ### Statements -/

namespace Outline

theorem declaration_eq (name : String) (ty : ValueType) :
    "Declaration " ++ name ++ " : " ++ ty.word = "Declaration" ++ " " ++ typedName name ty := by
  refine String.toList_inj.1 ?_
  simp [typedName, String.toList_append]

theorem declaration_ne {name label : String} {ty : ValueType} (h : ' ' ∉ label.toList) :
    "Declaration " ++ name ++ " : " ++ ty.word ≠ label := by
  rintro rfl
  rw [declaration_eq] at h
  refine h ?_
  simp [String.toList_append]

theorem assignment_inj {i j : Identifier} {e e' : Expr} (h : AreNames (i.name :: e.names))
    (h' : AreNames (j.name :: e'.names)) (heq : assignment i e = assignment j e') :
    i.moved nowhere = j.moved nowhere ∧ e.moved nowhere = e'.moved nowhere := by
  rw [AreNames.cons] at h h'
  obtain ⟨htarget, hrest⟩ := List.cons.inj (Outline.node.inj heq).2
  exact ⟨Identifier.moved_eq_of_outline_eq h.1 h'.1 htarget,
    Expr.moved_eq_of_outline_eq h.2 h'.2 (List.cons.inj hrest).1⟩

theorem labelled_node {word : String} {children : List Outline}
    (h : word.toList ≠ [] ∧ word.toList.all Char.isAlpha = true)
    (hchildren : LabelledAll children) : (node word children).Labelled := by
  rw [Labelled]
  exact ⟨isLabel_of_isAlpha h.1 h.2, hchildren⟩

theorem labelledAll_pair {outline outline' : Outline} (h : outline.Labelled)
    (h' : outline'.Labelled) : LabelledAll [outline, outline'] := by
  simpa only [LabelledAll, and_true] using ⟨h, h'⟩

theorem labelledAll_singleton {outline : Outline} (h : outline.Labelled) :
    LabelledAll [outline] := by
  simpa only [LabelledAll, and_true] using h

theorem labelled_assignment {i : Identifier} {e : Expr} (h : AreNames (i.name :: e.names)) :
    (assignment i e).Labelled := by
  rw [AreNames.cons] at h
  exact labelled_node (by decide)
    (labelledAll_pair (Identifier.labelled_outline h.1) (Expr.labelled_outline h.2))

end Outline

open Outline in
mutual

theorem Statement.labelled_outline : ∀ {v : Statement}, AreNames v.names → v.outline.Labelled
  | .declaration name position ty initializer, h => by
    rw [Statement.outline]
    refine labelled_node (by decide) (labelledAll_singleton ?_)
    have hname : TokenKind.identifier.Admits name.toList := h name List.mem_cons_self
    rw [Labelled, declaration_eq]
    refine ⟨isLabel_caption (isLabel_of_isAlpha (by decide) (by decide)) (flat_typedName hname), ?_⟩
    cases initializer with
    | none => simp only [Option.map_none, Option.toList_none, LabelledAll]
    | some e => exact labelledAll_singleton (labelled_assignment h)
  | .assignment target value, h =>
    labelled_node (by decide) (labelledAll_singleton (labelled_assignment h))
  | .loop counter start stop body, h => by
    rw [Statement.names, AreNames.cons, AreNames.append, AreNames.append] at h
    obtain ⟨hcounter, ⟨hstart, hstop⟩, hbody⟩ := h
    rw [Statement.outline]
    refine labelled_node (by decide) (labelledAll_singleton (labelled_node (by decide) ?_))
    refine labelledAll_pair (labelled_node (by decide) (labelledAll_pair ?_ ?_)) ?_
    · exact labelled_assignment (AreNames.cons.2 ⟨hcounter, hstart⟩)
    · exact labelled_node (by decide)
        (labelledAll_pair (Identifier.labelled_outline hcounter) (Expr.labelled_outline hstop))
    · exact labelled_node (by decide) (Block.labelledAll_outlines hbody)
  | .print value _, h =>
    labelled_node (by decide) (labelledAll_singleton
      (labelled_node (by decide) (labelledAll_singleton (Expr.labelled_outline h))))
  | .read target, h =>
    labelled_node (by decide) (labelledAll_singleton (labelled_node (by decide)
      (labelledAll_singleton (Identifier.labelled_outline (h _ List.mem_cons_self)))))
  | .assert condition _, h =>
    labelled_node (by decide) (labelledAll_singleton
      (labelled_node (by decide) (labelledAll_singleton (Expr.labelled_outline h))))

theorem Block.labelledAll_outlines : ∀ {b : Block}, AreNames (Block.names b) →
    LabelledAll (Block.outlines b)
  | [], _ => by simp only [Block.outlines, LabelledAll]
  | v :: rest, h => by
    rw [Block.names, AreNames.append] at h
    rw [Block.outlines, LabelledAll]
    exact ⟨Statement.labelled_outline h.1, Block.labelledAll_outlines h.2⟩

end

open Outline in
theorem Statement.exists_declaration {v : Statement} {name : String} {position : Position}
    {ty : ValueType} {initializer : Option Expr}
    (heq : v.outline = (declaration name position ty initializer).outline) :
    ∃ name' position' ty' initializer', v = declaration name' position' ty' initializer' := by
  cases v with
  | declaration name' position' ty' initializer' =>
    exact ⟨name', position', ty', initializer', rfl⟩
  | _ =>
    simp only [Statement.outline, Outline.assignment, node.injEq, List.cons.injEq, and_true,
      true_and] at heq
    exact absurd heq.1.symm (declaration_ne (by decide))

open Outline in
theorem Statement.moved_eq_of_declaration {name name' : String} {position position' : Position}
    {ty ty' : ValueType} {initializer initializer' : Option Expr}
    (h : AreNames (declaration name position ty initializer).names)
    (h' : AreNames (declaration name' position' ty' initializer').names)
    (heq : (declaration name position ty initializer).outline =
      (declaration name' position' ty' initializer').outline) :
    (declaration name position ty initializer).moved nowhere =
      (declaration name' position' ty' initializer').moved nowhere := by
  rw [Statement.names, AreNames.cons] at h h'
  simp only [Statement.outline, node.injEq, List.cons.injEq, and_true, true_and,
    declaration_eq] at heq
  obtain ⟨rfl, rfl⟩ := typedName_inj h.1 h'.1 (caption_inj (by decide) (by decide) heq.1).2
  cases initializer with
  | none =>
    cases initializer' with
    | none => rfl
    | some e' => simp at heq
  | some e =>
    cases initializer' with
    | none => simp at heq
    | some e' =>
      have he : e.moved nowhere = e'.moved nowhere :=
        (assignment_inj (AreNames.cons.2 h) (AreNames.cons.2 h') (List.cons.inj heq.2).1).2
      exact congrArg (fun e => Statement.declaration name .unknown ty (some e)) he

open Outline in
mutual

/-- A statement can be told from its outline, up to places. -/
theorem Statement.moved_eq_of_outline_eq : ∀ {v v' : Statement}, AreNames v.names →
    AreNames v'.names → v.outline = v'.outline → v.moved nowhere = v'.moved nowhere
  | .declaration name position ty initializer, v', h, h', heq => by
    obtain ⟨name', position', ty', initializer', rfl⟩ := Statement.exists_declaration heq.symm
    exact Statement.moved_eq_of_declaration h h' heq
  | .assignment target value, v', h, h', heq => by
    cases v' with
    | assignment target' value' =>
      simp only [Statement.outline, node.injEq, List.cons.injEq, and_true, true_and] at heq
      obtain ⟨ht, hv⟩ := assignment_inj h h' heq
      show Statement.assignment (target.moved nowhere) (value.moved nowhere) = _
      rw [ht, hv]
      rfl
    | declaration => exact nomatch Statement.exists_declaration heq
    | _ => simp [Statement.outline, Outline.assignment] at heq
  | .loop counter start stop body, v', h, h', heq => by
    cases v' with
    | loop counter' start' stop' body' =>
      simp only [Statement.outline, node.injEq, List.cons.injEq, and_true, true_and] at heq
      rw [Statement.names, AreNames.cons, AreNames.append, AreNames.append] at h h'
      obtain ⟨hcounter, ⟨hstart, hstop⟩, hbody⟩ := h
      obtain ⟨hcounter', ⟨hstart', hstop'⟩, hbody'⟩ := h'
      obtain ⟨⟨hassignment, -, hend⟩, hblock⟩ := heq
      obtain ⟨hc, hs⟩ := assignment_inj (AreNames.cons.2 ⟨hcounter, hstart⟩)
        (AreNames.cons.2 ⟨hcounter', hstart'⟩) hassignment
      have ht : stop.moved nowhere = stop'.moved nowhere :=
        Expr.moved_eq_of_outline_eq hstop hstop' hend
      have hb : Block.moved nowhere body = Block.moved nowhere body' :=
        Block.moved_eq_of_outlines_eq hbody hbody' hblock
      show Statement.loop (counter.moved nowhere) (start.moved nowhere) (stop.moved nowhere)
        (Block.moved nowhere body) = _
      rw [hc, hs, ht, hb]
      rfl
    | declaration => exact nomatch Statement.exists_declaration heq
    | _ => simp [Statement.outline, Outline.assignment] at heq
  | .print value _, v', h, h', heq => by
    cases v' with
    | print value' =>
      simp only [Statement.outline, node.injEq, List.cons.injEq, and_true, true_and] at heq
      exact congrArg (Statement.print · .unknown) (Expr.moved_eq_of_outline_eq h h' heq)
    | declaration => exact nomatch Statement.exists_declaration heq
    | _ => simp [Statement.outline, Outline.assignment] at heq
  | .read target, v', h, h', heq => by
    cases v' with
    | read target' =>
      simp only [Statement.outline, node.injEq, List.cons.injEq, and_true, true_and] at heq
      exact congrArg Statement.read (Identifier.moved_eq_of_outline_eq (h _ List.mem_cons_self)
        (h' _ List.mem_cons_self) heq)
    | declaration => exact nomatch Statement.exists_declaration heq
    | _ => simp [Statement.outline, Outline.assignment] at heq
  | .assert condition _, v', h, h', heq => by
    cases v' with
    | assert condition' =>
      simp only [Statement.outline, node.injEq, List.cons.injEq, and_true, true_and] at heq
      exact congrArg (Statement.assert · .unknown) (Expr.moved_eq_of_outline_eq h h' heq)
    | declaration => exact nomatch Statement.exists_declaration heq
    | _ => simp [Statement.outline, Outline.assignment] at heq

theorem Block.moved_eq_of_outlines_eq : ∀ {b b' : Block}, AreNames (Block.names b) →
    AreNames (Block.names b') → Block.outlines b = Block.outlines b' →
      Block.moved nowhere b = Block.moved nowhere b'
  | [], [], _, _, _ => rfl
  | [], _ :: _, _, _, heq => by simp [Block.outlines] at heq
  | _ :: _, [], _, _, heq => by simp [Block.outlines] at heq
  | v :: rest, v' :: rest', h, h', heq => by
    rw [Block.names, AreNames.append] at h h'
    rw [Block.outlines, Block.outlines] at heq
    obtain ⟨hv, hrest⟩ := List.cons.inj heq
    show v.moved nowhere :: Block.moved nowhere rest = _
    rw [Statement.moved_eq_of_outline_eq h.1 h'.1 hv, Block.moved_eq_of_outlines_eq h.2 h'.2 hrest]
    rfl

end

/-! ### Places are not shown -/

theorem Identifier.outline_moved (place : Position → Position) (i : Identifier) :
    (i.moved place).outline = i.outline := rfl

theorem Expr.outline_moved (place : Position → Position) (e : Expr) :
    (e.moved place).outline = e.outline := by
  induction e with
  | not operand position ih => exact congrArg (Outline.node _ [·]) ih
  | binary op left right position ihleft ihright =>
    exact congrArg₂ (Outline.node _ [·, ·]) ihleft ihright
  | _ => rfl

mutual

theorem Statement.outline_moved (place : Position → Position) :
    ∀ v : Statement, (v.moved place).outline = v.outline
  | .declaration name position ty none => rfl
  | .declaration name position ty (some e) => by
    have he : (e.relabel id place).outline = e.outline := e.outline_moved place
    simp only [Statement.moved, Statement.relabel, Statement.outline, Option.map_some,
      Outline.assignment, he]
    rfl
  | .assignment target value => by
    have hv : (value.relabel id place).outline = value.outline := value.outline_moved place
    simp only [Statement.moved, Statement.relabel, Statement.outline, Outline.assignment, hv]
    rfl
  | .loop counter start stop body => by
    have hs : (start.relabel id place).outline = start.outline := start.outline_moved place
    have ht : (stop.relabel id place).outline = stop.outline := stop.outline_moved place
    have hb : Block.outlines (Block.relabel id place body) = Block.outlines body :=
      Block.outlines_moved place body
    simp only [Statement.moved, Statement.relabel, Statement.outline, Outline.assignment, hs, ht,
      hb]
    rfl
  | .print value _ =>
    congrArg (Outline.node "Statement" [Outline.node "Print" [·]]) (value.outline_moved place)
  | .read target => rfl
  | .assert condition _ =>
    congrArg (Outline.node "Statement" [Outline.node "Assert" [·]]) (condition.outline_moved place)

theorem Block.outlines_moved (place : Position → Position) :
    ∀ b : Block, Block.outlines (b.moved place) = Block.outlines b
  | [] => rfl
  | v :: rest => congrArg₂ List.cons (v.outline_moved place) (Block.outlines_moved place rest)

end

/-! ### Programs -/

/-- From the text of its outline a program can be told, up to the places of its parts. -/
theorem outlineText_eq_iff (p q : Program) (hp : AreNames (Block.names p.statements))
    (hq : AreNames (Block.names q.statements)) :
    p.outlineText = q.outlineText ↔
      Block.moved nowhere p.statements = Block.moved nowhere q.statements := by
  have hlabelled : ∀ r : Program, AreNames (Block.names r.statements) → r.outline.Labelled := by
    intro r hr
    refine Outline.labelled_node (by decide) (Outline.labelledAll_singleton ?_)
    exact Outline.labelled_node (by decide) (Block.labelledAll_outlines hr)
  constructor
  · intro heq
    have houtline : p.outline = q.outline :=
      Outline.text_inj (hlabelled p hp) (hlabelled q hq) heq
    simp only [Program.outline, Outline.node.injEq, List.cons.injEq, and_true, true_and] at houtline
    exact Block.moved_eq_of_outlines_eq hp hq houtline
  · intro heq
    have houtlines : Block.outlines p.statements = Block.outlines q.statements := by
      rw [← Block.outlines_moved nowhere, heq, Block.outlines_moved]
    exact congrArg (fun outlines => Outline.text (.node "Program" [.node "Block" outlines]))
      houtlines

/-! ### Programs that were read -/

namespace Grammar

/-- The names in a tree are lexemes of its identifiers. -/
def NamedIn (tokens : List Token) (names : List String) : Prop :=
  ∀ name ∈ names, ∃ token ∈ tokens, token.kind = .identifier ∧ token.lexeme = name

variable {types types' : TypeTable} {tokens : List Token}

theorem NamedIn.mono {tokens tokens' : List Token} {names : List String} (h : NamedIn tokens names)
    (hsubset : tokens ⊆ tokens') : NamedIn tokens' names := by
  intro name hmem
  obtain ⟨token, htoken, hkind⟩ := h name hmem
  exact ⟨token, hsubset htoken, hkind⟩

theorem NamedIn.append {names names' : List String} (h : NamedIn tokens names)
    (h' : NamedIn tokens names') : NamedIn tokens (names ++ names') :=
  List.forall_mem_append.2 ⟨h, h'⟩

theorem NamedIn.cons {names : List String} {token : Token} (hmem : token ∈ tokens)
    (hkind : token.kind = .identifier) (h : NamedIn tokens names) :
    NamedIn tokens (token.lexeme :: names) :=
  List.forall_mem_cons.2 ⟨⟨token, hmem, hkind, rfl⟩, h⟩

theorem Derives.namedIn {phrase : Phrase} {e : Expr} (h : Derives types phrase tokens e) :
    NamedIn tokens e.names := by
  induction h with
  | term _ ih | factor _ ih => exact ih
  | sum _ _ _ _ ihleft ihright | product _ _ _ _ ihleft ihright =>
    rw [Expr.names_binary]
    exact (ihleft.mono (List.subset_append_left _ _)).append
      (ihright.mono fun _ hmem => List.mem_append_right _ (List.mem_cons_of_mem _ hmem))
  | int | string | bool => exact fun _ hmem => nomatch hmem
  | var hkind => exact .cons (List.mem_singleton_self _) hkind fun _ hmem => nomatch hmem
  | parens _ _ _ ih =>
    exact ih.mono fun _ hmem => List.mem_append_left _ (List.mem_cons_of_mem _ hmem)
  | not _ _ ih => exact ih.mono (List.subset_cons_self _ _)

theorem IsSimple.namedIn {v : Statement} (h : IsSimple types tokens v types') :
    NamedIn tokens v.names := by
  cases h with
  | declaration _ hname =>
    exact .cons (by simp) hname fun _ hmem => nomatch hmem
  | initialized _ hname _ _ _ h =>
    exact .cons (by simp) hname (h.namedIn.mono fun _ hmem => by simp [hmem])
  | assignment hname _ h =>
    exact .cons (by simp) hname (h.namedIn.mono fun _ hmem => by simp [hmem])
  | print _ h => exact h.namedIn.mono fun _ hmem => by simp [hmem]
  | read _ hname => exact .cons (by simp) hname fun _ hmem => nomatch hmem
  | assert _ _ h => exact h.namedIn.mono fun _ hmem => by simp [hmem]

theorem IsHeader.namedIn {counter : Identifier} {start stop : Expr}
    (h : IsHeader types tokens counter start stop) :
    NamedIn tokens (counter.name :: (start.names ++ stop.names)) := by
  cases h with
  | mk hname _ hstart _ hstop =>
    refine .cons (by simp) hname (.append ?_ ?_)
    · exact hstart.namedIn.mono fun _ hmem => by simp [hmem]
    · exact hstop.namedIn.mono fun _ hmem => by simp [hmem]

theorem IsBlock.namedIn {b : Block} (h : IsBlock types tokens b types') :
    NamedIn tokens (Block.names b) := by
  induction h with
  | nil => exact fun _ hmem => nomatch hmem
  | simple h _ ih =>
    exact (h.namedIn.mono (List.subset_append_left _ _)).append
      (ih.mono (List.subset_append_right _ _))
  | @loop _ _ _ _ _ _ _ _ counter start stop body b _ hheader _ _ _ ihbody ih =>
    have hnames : Block.names (.loop counter start stop body :: b) =
        counter.name :: (start.names ++ stop.names) ++ Block.names body ++ Block.names b := by
      simp [Block.names, Statement.names]
    rw [hnames]
    refine .append (.append (hheader.namedIn.mono ?_) (ihbody.mono ?_)) (ih.mono ?_)
    all_goals exact fun _ hmem => by simp [hmem]

end Grammar

theorem Lexer.admits_of_mem_tokenize {text : String} {token : Token} (h : token ∈ tokenize text)
    (hkind : token.kind = .identifier) : TokenKind.identifier.Admits token.lexeme.toList := by
  obtain ⟨raw, rest, hraw⟩ := (splits_tokenize text).exists_isRaw token h
  rw [hkind] at hraw
  generalize token.lexeme.toList = lexeme at hraw
  cases hraw with
  | identifier hfirst hothers hreserved => exact .identifier hfirst hothers hreserved
  | sign hsign => cases hsign

/-- The names in a program read without a report are names of variables. -/
theorem areNames_of_isClean {text : String} {types : TypeTable}
    (h : (parseText text types).isClean = true) :
    AreNames (Block.names (parseText text types).program.statements) := by
  obtain ⟨types', hblock⟩ := Parser.isBlock_of_isClean h
  intro name hmem
  obtain ⟨token, htoken, hkind, rfl⟩ := hblock.namedIn name hmem
  exact Lexer.admits_of_mem_tokenize htoken hkind

/-- The same program in two layouts, with a quoted text, a type tag and a loop. -/
theorem outlineText_eq_iff_in_two_layouts :
    let p := (parseText "var s : string := \"a\"; for i in 1..2 do print s; end for;").program
    let q := (parseText "var s : string := \"a\";\nfor i in 1..2 do\n print (s);\nend for;").program
    AreNames (Block.names p.statements) ∧ AreNames (Block.names q.statements) ∧
      (p.outlineText = q.outlineText ↔
        Block.moved nowhere p.statements = Block.moved nowhere q.statements) := by
  intro p q
  have hp : AreNames (Block.names p.statements) := areNames_of_isClean (by decide +kernel)
  have hq : AreNames (Block.names q.statements) := areNames_of_isClean (by decide +kernel)
  exact ⟨hp, hq, outlineText_eq_iff p q hp hq⟩

end MiniPL
