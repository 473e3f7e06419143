import HeaderBridge.Proofs.Grammar.Gaps

/-! # Words

An identifier reaches as far as identifier characters go, and a keyword matches
exactly where the whole identifier there is one of its spellings.
-/

namespace HeaderBridge.Grammar

open HeaderBridge.Grammar.Expr

variable {cs : List Char}

/-- What holds of the characters of a text is decided on the text, not on all characters. -/
instance decidableForallMemText (p : Char → Prop) [DecidablePred p] (cs : List Char) :
    Decidable (∀ c ∈ cs, p c) := List.decidableBAll p cs

/-! ### Identifiers -/

def isIdentChar (c : Char) : Bool := c.isAlphanum || (c == '_' || c == '$')

def isIdentStart (c : Char) : Bool := c.isAlpha || (c == '_' || c == '$')

theorem isIdentChar_of_isIdentStart {c : Char} (h : isIdentStart c = true) :
    isIdentChar c = true := by
  simp only [isIdentStart, isIdentChar, Char.isAlphanum, Bool.or_eq_true] at h ⊢
  exact h.imp .inl id

def identRun (cs : List Char) : List Char := cs.takeWhile isIdentChar

def identRest (cs : List Char) : List Char := cs.dropWhile isIdentChar

@[simp] theorem identRun_append_identRest (cs : List Char) : identRun cs ++ identRest cs = cs :=
  List.takeWhile_append_dropWhile

/-- The text does not go on with an identifier character. -/
def Ends (cs : List Char) : Prop := ∀ c ∈ cs.head?, isIdentChar c = false

theorem Ends.nil : Ends [] := by simp [Ends]

theorem ends_identRest (cs : List Char) : Ends (identRest cs) := by
  intro c hc
  have h := List.head?_dropWhile_not isIdentChar cs
  rw [← identRest, Option.mem_def.mp hc] at h
  simpa using h

theorem Ends.append {x zs : List Char} (hx : x ≠ []) (h : Ends (x ++ cs)) : Ends (x ++ zs) := by
  cases x with
  | nil => exact absurd rfl hx
  | cons c x => simpa [Ends] using h

section Append

variable {w : List Char} (hw : ∀ c ∈ w, isIdentChar c = true) (hcs : Ends cs)
include hw hcs

theorem identRun_append : identRun (w ++ cs) = w := by
  have h : cs.takeWhile isIdentChar = [] := by
    cases cs with
    | nil => rfl
    | cons c cs => simp [hcs c rfl]
  rw [identRun, List.takeWhile_append_of_pos hw, h, List.append_nil]

theorem identRest_append : identRest (w ++ cs) = cs := by
  have h : cs.dropWhile isIdentChar = cs := by
    cases cs with
    | nil => rfl
    | cons c cs => simp [hcs c rfl]
  rw [identRest, List.dropWhile_append_of_pos hw, h]

end Append

theorem isIdentChar_of_mem_identRun {c : Char} (h : c ∈ identRun cs) : isIdentChar c = true :=
  List.mem_takeWhile_imp h

abbrev Node.token (r : Rule) (cs : List Char) : Node := .mk r 0 (.ofList cs) []

theorem Reading.named_some (r : Rule) (x cs : List Char) (ns : List Node) :
    Reading.named r (x ++ cs) (some (cs, ns)) = some (cs, [.mk r 0 (.ofList x) ns]) := by
  simp [Reading.named]

theorem Rule.identChar_reading : Rule.identChar.reading .tight cs = readOne isIdentChar cs := by
  have hbody : Rule.identChar.body =
      .choice (.char .letterOrDigit) (.choice (.literal ['_']) (.literal ['$'])) := rfl
  rw [reading_tight, hbody]
  simp only [reading_choice, reading_char, reading_literal_singleton, readOne_or]
  rfl

def startsIdent (cs : List Char) : Bool := cs.head?.any isIdentStart

theorem Rule.identifier_reading : Rule.identifier.reading .spaced cs =
    if startsIdent cs then some (identRest cs, [.token .identifier (identRun cs)]) else none := by
  have hbody : Rule.identifier.body =
      .seq (.choice (.char .letter) (.choice (.literal ['_']) (.literal ['$'])))
        (.many (.call .identChar)) := rfl
  have hmany : ∀ cs, (Expr.many (.call .identChar)).reading .tight cs = some (identRest cs, []) :=
    fun cs => reading_many_readOne fun cs => by rw [reading_call, Rule.identChar_reading]
  rw [reading_token rfl, hbody, reading_seq]
  simp only [reading_choice, reading_char, reading_literal_singleton, readOne_or, hmany,
    skipBetween]
  cases cs with
  | nil => rfl
  | cons c cs =>
    change Reading.named _ _ ((readOne isIdentStart (c :: cs)).bind _) = _
    cases hc : isIdentStart c with
    | false => simp [readOne, hc, startsIdent, Reading.named]
    | true =>
      have hrest : identRest (c :: cs) = identRest cs := by
        simp [identRest, isIdentChar_of_isIdentStart hc]
      have hnamed := Reading.named_some .identifier (identRun (c :: cs)) (identRest (c :: cs)) []
      rw [identRun_append_identRest] at hnamed
      simpa [readOne, hc, startsIdent, ← hrest] using hnamed

/-! ### Keywords -/

theorem reading_oneOf (w : String) (ws : List String) (mode : Mode) :
    (oneOf w ws).reading mode cs =
      ((w :: ws).find? (fun u => decide (u.toList <+: cs))).map
        fun u => (cs.drop u.toList.length, []) := by
  induction ws generalizing w with
  | nil =>
    rw [oneOf, lit, reading_literal]
    by_cases h : w.toList <+: cs <;> simp [h]
  | cons v vs ih =>
    rw [oneOf, reading_choice, ih, lit, reading_literal]
    by_cases h : w.toList <+: cs <;> simp [h]

/-- Spellings of identifier characters, none of which is the beginning of a later one. -/
def Spellings (ws : List String) : Prop :=
  (∀ w ∈ ws, ∀ c ∈ w.toList, isIdentChar c = true) ∧
    ws.Pairwise fun u v => ¬ u.toList <+: v.toList

instance (ws : List String) : Decidable (Spellings ws) := inferInstanceAs (Decidable (_ ∧ _))

theorem identRun_append_left {x t : List Char} (hx : ∀ c ∈ x, isIdentChar c = true) :
    identRun (x ++ t) = x ++ identRun t :=
  List.takeWhile_append_of_pos hx

/-- A keyword matches exactly where the whole identifier is one of its spellings. -/
theorem reading_word {w : String} {ws : List String} (h : Spellings (w :: ws)) :
    (word (oneOf w ws)).reading .tight cs =
      if String.ofList (identRun cs) ∈ w :: ws then some (identRest cs, []) else none := by
  rw [word, reading_seq, reading_oneOf]
  simp only [reading_notAhead, reading_call, Rule.identChar_reading, skipBetween]
  by_cases hmem : String.ofList (identRun cs) ∈ w :: ws
  · obtain ⟨before, after, hsplit⟩ := List.append_of_mem hmem
    have hfirst : ∀ u ∈ before, ¬ u.toList <+: cs := by
      rintro u hu ⟨t, rfl⟩
      have hchars := h.1 u (hsplit ▸ List.mem_append_left _ hu)
      have hpair := h.2
      rw [hsplit, List.pairwise_append] at hpair
      apply hpair.2.2 u hu _ (List.mem_cons_self ..)
      rw [String.toList_ofList, identRun_append_left hchars]
      exact List.prefix_append ..
    have hfind : (w :: ws).find? (fun u => decide (u.toList <+: cs)) =
        some (.ofList (identRun cs)) := by
      rw [List.find?_eq_some_iff_append]
      refine ⟨?_, before, after, hsplit, fun u hu => by simpa using hfirst u hu⟩
      rw [String.toList_ofList, decide_eq_true_eq]
      exact List.takeWhile_prefix _
    have hdrop : cs.drop (identRun cs).length = identRest cs := by
      have hd : (identRun cs ++ identRest cs).drop (identRun cs).length = identRest cs :=
        List.drop_left
      rwa [identRun_append_identRest] at hd
    have hend : (readOne isIdentChar (identRest cs)).isSome = false := by
      have hends := ends_identRest cs
      cases hr : identRest cs with
      | nil => rfl
      | cons c t => simp [readOne, hends c (by simp [hr])]
    rw [hfind, if_pos hmem]
    simp [hdrop, hend]
  · rw [if_neg hmem]
    cases hfind : (w :: ws).find? (fun u => decide (u.toList <+: cs)) with
    | none => rfl
    | some u =>
      obtain ⟨t, rfl⟩ : u.toList <+: cs := by simpa using List.find?_some hfind
      have hu := List.mem_of_find?_eq_some hfind
      rw [identRun_append_left (h.1 u hu)] at hmem
      have hgo : (readOne isIdentChar t).isSome = true := by
        cases t with
        | nil => simp [identRun, hu] at hmem
        | cons c t =>
          cases hc : isIdentChar c with
          | true => simp [readOne, hc]
          | false => simp [identRun, hc, hu] at hmem
      simp [hgo]

def Expr.literals : Expr → List String
  | literal l => [.ofList l]
  | choice a b => a.literals ++ b.literals
  | seq a _ => a.literals
  | _ => []

def Rule.spellings (r : Rule) : List String := r.body.literals

/-- The keywords that stand around types, and those before the name of a tagged type. -/
def Rule.isKeyword (r : Rule) : Bool :=
  r matches .arcBehaviourSpecifier | .nullabilitySpecifier | .typeQualifier | .tagKeyword

theorem Rule.word_reading {r : Rule} (hr : r.kind = .token) {w : String} {ws : List String}
    (hbody : r.body = word (oneOf w ws)) (h : Spellings (w :: ws)) : r.reading .spaced cs =
      if String.ofList (identRun cs) ∈ w :: ws then some (identRest cs, [.token r (identRun cs)])
      else none := by
  rw [reading_token hr, hbody, reading_word h]
  by_cases hmem : String.ofList (identRun cs) ∈ w :: ws
  · have hnamed := Reading.named_some r (identRun cs) (identRest cs) []
    rw [identRun_append_identRest] at hnamed
    rw [if_pos hmem, if_pos hmem, hnamed]
  · rw [if_neg hmem, if_neg hmem]
    rfl

theorem Rule.keyword_reading {r : Rule} (hr : r.isKeyword = true) : r.reading .spaced cs =
    if String.ofList (identRun cs) ∈ r.spellings then some (identRest cs, [.token r (identRun cs)])
    else none := by
  obtain ⟨w, ws, hbody, hlits, hsp⟩ : ∃ w ws, r.body = word (oneOf w ws) ∧ r.spellings = w :: ws ∧
      Spellings (w :: ws) := by
    cases r <;> simp only [isKeyword, Bool.false_eq_true] at hr <;>
      exact ⟨_, _, rfl, rfl, by decide⟩
  have htoken : r.kind = .token := by
    cases r <;> simp only [isKeyword, Bool.false_eq_true] at hr <;> rfl
  rw [hlits]
  exact word_reading htoken hbody hsp

/-- The rule of a word that may stand around a type. -/
def prefixRule? (w : String) : Option Rule :=
  [Rule.arcBehaviourSpecifier, .nullabilitySpecifier, .typeQualifier].find? (w ∈ ·.spellings)

theorem Rule.typePrefix_reading : Rule.typePrefix.reading .spaced cs =
    (prefixRule? (.ofList (identRun cs))).map fun r =>
      (identRest cs, [.token r (identRun cs)]) := by
  have hbody : Rule.typePrefix.body = .choice (.call .arcBehaviourSpecifier)
      (.choice (.call .nullabilitySpecifier) (.call .typeQualifier)) := rfl
  rw [reading_group rfl, hbody]
  simp only [reading_choice, reading_call, keyword_reading (r := .arcBehaviourSpecifier) rfl,
    keyword_reading (r := .nullabilitySpecifier) rfl, keyword_reading (r := .typeQualifier) rfl]
  generalize String.ofList (identRun cs) = w
  simp only [prefixRule?, List.find?_cons, List.find?_nil]
  by_cases h₁ : w ∈ Rule.arcBehaviourSpecifier.spellings
  · simp [h₁]
  · by_cases h₂ : w ∈ Rule.nullabilitySpecifier.spellings
    · simp [h₁, h₂]
    · by_cases h₃ : w ∈ Rule.typeQualifier.spellings <;> simp [h₁, h₂, h₃]

theorem Rule.pointerQualifier_reading :
    Rule.pointerQualifier.reading .spaced cs = Rule.typePrefix.reading .spaced cs := by
  have hbody : Rule.pointerQualifier.body = .choice (.call .typeQualifier)
      (.choice (.call .nullabilitySpecifier) (.call .arcBehaviourSpecifier)) := rfl
  rw [typePrefix_reading, reading_group rfl, hbody]
  simp only [reading_choice, reading_call, keyword_reading (r := .arcBehaviourSpecifier) rfl,
    keyword_reading (r := .nullabilitySpecifier) rfl, keyword_reading (r := .typeQualifier) rfl]
  generalize String.ofList (identRun cs) = w
  -- no word belongs to two of the three
  have h₁₂ : ∀ w ∈ Rule.arcBehaviourSpecifier.spellings,
      w ∉ Rule.nullabilitySpecifier.spellings := by
    decide
  have h₁₃ : ∀ w ∈ Rule.arcBehaviourSpecifier.spellings, w ∉ Rule.typeQualifier.spellings := by
    decide
  have h₂₃ : ∀ w ∈ Rule.nullabilitySpecifier.spellings, w ∉ Rule.typeQualifier.spellings := by
    decide
  simp only [prefixRule?, List.find?_cons, List.find?_nil]
  by_cases h₁ : w ∈ Rule.arcBehaviourSpecifier.spellings
  · simp [h₁, h₁₂ w h₁, h₁₃ w h₁]
  · by_cases h₂ : w ∈ Rule.nullabilitySpecifier.spellings
    · simp [h₁, h₂, h₂₃ w h₂]
    · by_cases h₃ : w ∈ Rule.typeQualifier.spellings <;> simp [h₁, h₂, h₃]

/-! ### The words of a scalar -/

def isSpaceOrTab (c : Char) : Bool := c == ' ' || c == '\t'

def scalarRound? (cs : List Char) : Option (List Char) :=
  let ds := cs.dropWhile isSpaceOrTab
  if cs.head?.any isSpaceOrTab ∧ String.ofList (identRun ds) ∈ Rule.primitiveWord.spellings then
    some (identRest ds)
  else none

def scalarRest (cs : List Char) : List Char :=
  (readRounds (fun cs => (scalarRound? cs).map (·, [])) cs []).1

def scalarStarts : List String := "unsigned" :: "signed" :: Rule.primitiveWord.spellings

theorem primitiveWord_reading : (Expr.call .primitiveWord).reading .tight cs =
    if String.ofList (identRun cs) ∈ Rule.primitiveWord.spellings then some (identRest cs, [])
    else none := by
  rw [reading_call, Rule.reading_tight]
  exact reading_word (by decide)

theorem spaceOrTab_reading (cs : List Char) :
    spaceOrTab.reading .tight cs = readOne isSpaceOrTab cs := by
  have hbody : spaceOrTab = .choice (.literal [' ']) (.literal ['\t']) := rfl
  rw [hbody, reading_choice, reading_literal_singleton, reading_literal_singleton, readOne_or]
  rfl

theorem scalarRound?_reading :
    (Expr.seq (many1 spaceOrTab) (.call .primitiveWord)).reading .tight cs =
      (scalarRound? cs).map (·, []) := by
  rw [many1, reading_seq, reading_seq, spaceOrTab_reading]
  simp only [reading_many_readOne spaceOrTab_reading, primitiveWord_reading, skipBetween,
    scalarRound?]
  cases cs with
  | nil => rfl
  | cons c cs =>
    by_cases hc : isSpaceOrTab c = true
    · have hdrop : (c :: cs).dropWhile isSpaceOrTab = cs.dropWhile isSpaceOrTab := by simp [hc]
      simp only [readOne, hc, hdrop, if_true, Reading.some_nil_andThen, List.head?_cons,
        Option.any_some, true_and]
      split <;> rfl
    · simp [readOne, hc]

theorem identRest_length_lt {cs : List Char} (h : identRun cs ≠ []) :
    (identRest cs).length < cs.length := by
  have hlen := congrArg List.length (identRun_append_identRest cs)
  have hpos := List.length_pos_iff.mpr h
  rw [List.length_append] at hlen
  omega

theorem identRun_ne_nil_of_mem {ws : List String} (hws : "" ∉ ws)
    (h : String.ofList (identRun cs) ∈ ws) : identRun cs ≠ [] := by
  intro he
  rw [he] at h
  exact hws h

theorem scalarRound?_length_lt {cs cs' : List Char} (h : scalarRound? cs = some cs') :
    cs'.length < cs.length := by
  simp only [scalarRound?, Option.ite_none_right_eq_some, Option.some.injEq] at h
  obtain ⟨⟨-, hw⟩, rfl⟩ := h
  have hlt := identRest_length_lt (identRun_ne_nil_of_mem (by decide) hw)
  have hle := (List.dropWhile_suffix isSpaceOrTab (l := cs)).length_le
  omega

theorem scalarRest_of_round {cs cs' : List Char} (h : scalarRound? cs = some cs') :
    scalarRest cs = scalarRest cs' := by
  rw [scalarRest, readRounds_of_some (by rw [h, Option.map_some]) (scalarRound?_length_lt h)]
  rfl

theorem scalarRest_of_none {cs : List Char} (h : scalarRound? cs = none) : scalarRest cs = cs := by
  rw [scalarRest, readRounds_of_none (by rw [h, Option.map_none])]

theorem isSpaceOrTab_of_isIdentChar {c : Char} (h : isIdentChar c = true) :
    isSpaceOrTab c = false := by
  by_contra hc
  simp only [isSpaceOrTab, Bool.not_eq_false, Bool.or_eq_true, beq_iff_eq] at hc
  rcases hc with rfl | rfl <;> simp [isIdentChar, Char.isAlphanum] at h

theorem scalarRound?_append {b w zs : List Char} (hb : ∀ c ∈ b, isSpaceOrTab c = true)
    (hne : b ≠ []) (hw : String.ofList w ∈ Rule.primitiveWord.spellings) (hz : Ends zs) :
    scalarRound? (b ++ (w ++ zs)) = some zs := by
  have hchars : ∀ c ∈ w, isIdentChar c = true := by
    have hall : ∀ u ∈ Rule.primitiveWord.spellings, ∀ c ∈ u.toList, isIdentChar c = true := by
      decide
    simpa using hall _ hw
  have hwne : w ≠ [] := by
    rintro rfl
    exact absurd hw (by decide)
  have hdrop : (b ++ (w ++ zs)).dropWhile isSpaceOrTab = w ++ zs := by
    obtain ⟨c, w, rfl⟩ := List.exists_cons_of_ne_nil hwne
    rw [List.dropWhile_append_of_pos hb, List.cons_append, List.dropWhile_cons,
      isSpaceOrTab_of_isIdentChar (hchars c (by simp))]
    rfl
  have hhead : (b ++ (w ++ zs)).head?.any isSpaceOrTab = true := by
    obtain ⟨c, b, rfl⟩ := List.exists_cons_of_ne_nil hne
    simp [hb c (by simp)]
  simp only [scalarRound?, hdrop, hhead, identRun_append hchars hz, identRest_append hchars hz, hw,
    and_self, if_true]

/-- Further words of a scalar, each after blanks. -/
inductive ScalarTail : List Char → Prop where
  | nil : ScalarTail []
  | cons {b w x : List Char} : (∀ c ∈ b, isSpaceOrTab c = true) → b ≠ [] →
      String.ofList w ∈ Rule.primitiveWord.spellings → ScalarTail x → ScalarTail (b ++ (w ++ x))

theorem ScalarTail.ends_append {x zs : List Char} (h : ScalarTail x) (hz : Ends zs) :
    Ends (x ++ zs) := by
  cases h with
  | nil => exact hz
  | @cons b w x hb hne =>
    obtain ⟨c, b, rfl⟩ := List.exists_cons_of_ne_nil hne
    intro d hd
    obtain rfl : c = d := by simpa using hd
    by_contra hc
    have hblank := isSpaceOrTab_of_isIdentChar (by simpa using hc)
    rw [hb c (by simp)] at hblank
    simp at hblank

theorem ScalarTail.scalarRest_append {x zs : List Char} (h : ScalarTail x) (hz : Ends zs)
    (hnone : scalarRound? zs = none) : scalarRest (x ++ zs) = zs := by
  induction h with
  | nil => exact scalarRest_of_none hnone
  | @cons b w x hb hne hw hx ih =>
    have hround := scalarRound?_append hb hne hw (hx.ends_append hz)
    rw [List.append_assoc, List.append_assoc, scalarRest_of_round hround, ih]

theorem scalarRest_split (cs : List Char) (hcs : Ends cs) : ∃ x, cs = x ++ scalarRest cs ∧
    ScalarTail x ∧ Ends (scalarRest cs) ∧ scalarRound? (scalarRest cs) = none := by
  cases h : scalarRound? cs with
  | none =>
    rw [scalarRest_of_none h]
    exact ⟨[], rfl, .nil, hcs, h⟩
  | some cs' =>
    have hlt := scalarRound?_length_lt h
    have hround := h
    simp only [scalarRound?, Option.ite_none_right_eq_some, Option.some.injEq] at hround
    obtain ⟨⟨hhead, hw⟩, hrest⟩ := hround
    obtain ⟨x, hx, htail, hends, hnone⟩ := scalarRest_split cs' (hrest ▸ ends_identRest _)
    have hbne : cs.takeWhile isSpaceOrTab ≠ [] := by
      cases cs with
      | nil => simp at hhead
      | cons c cs =>
        have hc : isSpaceOrTab c = true := by simpa using hhead
        simp [hc]
    rw [scalarRest_of_round h]
    refine ⟨_, ?_, .cons (fun c hc => List.mem_takeWhile_imp hc) hbne hw htail, hends, hnone⟩
    rw [List.append_assoc, List.append_assoc, ← hx, ← hrest, identRun_append_identRest,
      List.takeWhile_append_dropWhile]
termination_by cs.length

theorem Rule.primitiveType_reading : Rule.primitiveType.reading .spaced cs =
    if String.ofList (identRun cs) ∈ scalarStarts then
      Reading.named .primitiveType cs (some (scalarRest (identRest cs), []))
    else none := by
  have hbody : Rule.primitiveType.body = .choice
      (.seq (word (oneOf "unsigned" ["signed"]))
        (.many (.seq (many1 spaceOrTab) (.call .primitiveWord))))
      (.seq (.call .primitiveWord) (.many (.seq (many1 spaceOrTab) (.call .primitiveWord)))) := rfl
  have hmany : ∀ cs,
      (Expr.many (.seq (many1 spaceOrTab) (.call .primitiveWord))).reading .tight cs =
      some (scalarRest cs, []) := by
    intro cs
    have hstep : (Expr.seq (many1 spaceOrTab) (.call .primitiveWord)).reading .tight =
        fun cs => (scalarRound? cs).map (·, []) := funext fun _ => scalarRound?_reading
    rw [reading_many_tight, hstep]
    · refine congrArg some (Prod.ext rfl (readRounds_nodes ?_ _ _))
      intro cs cs' ns h
      obtain ⟨ds, -, hds⟩ := Option.map_eq_some_iff.mp h
      exact (congrArg Prod.snd hds).symm
    · intro cs cs' ns h
      rw [hstep] at h
      obtain ⟨ds, hds, hd⟩ := Option.map_eq_some_iff.mp h
      obtain rfl := congrArg Prod.fst hd
      exact scalarRound?_length_lt hds
  have hsign : ∀ cs, (word (oneOf "unsigned" ["signed"])).reading .tight cs =
      if String.ofList (identRun cs) ∈ ["unsigned", "signed"] then some (identRest cs, [])
      else none :=
    fun cs => reading_word (by decide)
  rw [reading_token rfl, hbody]
  simp only [reading_choice, reading_seq, hsign, primitiveWord_reading, hmany, skipBetween]
  have hstarts : String.ofList (identRun cs) ∈ scalarStarts ↔
      String.ofList (identRun cs) ∈ ["unsigned", "signed"] ∨
        String.ofList (identRun cs) ∈ Rule.primitiveWord.spellings := by
    simp [scalarStarts, or_assoc]
  by_cases h₁ : String.ofList (identRun cs) ∈ ["unsigned", "signed"]
  · simp only [h₁, hstarts, true_or, if_true]
    rfl
  · by_cases h₂ : String.ofList (identRun cs) ∈ Rule.primitiveWord.spellings
    · simp only [h₁, h₂, hstarts, or_true, if_true, if_false]
      rfl
    · simp only [h₁, h₂, hstarts, or_self, if_false]
      rfl

/-! ### Lengths of arrays -/

theorem Rule.arrayLength_reading : Rule.arrayLength.reading .spaced cs =
    if cs.head?.any (· != ']') then
      some (cs.dropWhile (· != ']'), [.token .arrayLength (cs.takeWhile (· != ']'))])
    else none := by
  have hbody : Rule.arrayLength.body = many1 (.seq (.notAhead (.literal [']'])) (.char .any)) := rfl
  have hone : ∀ cs, (Expr.seq (.notAhead (.literal [']'])) (.char .any)).reading .tight cs =
      readOne (· != ']') cs := fun cs =>
    reading_any_unless fun cs => by rw [reading_literal_singleton]
  rw [reading_token rfl, hbody, many1, reading_seq, hone]
  simp only [reading_many_readOne hone, skipBetween]
  cases cs with
  | nil => rfl
  | cons c cs =>
    by_cases hc : (c != ']') = true
    · have hdrop : cs.dropWhile (· != ']') = (c :: cs).dropWhile (· != ']') := by simp [hc]
      have hnamed := Reading.named_some .arrayLength ((c :: cs).takeWhile (· != ']'))
        ((c :: cs).dropWhile (· != ']')) []
      rw [List.takeWhile_append_dropWhile] at hnamed
      simp only [readOne, hc, if_true, Reading.some_nil_andThen, hdrop, List.head?_cons,
        Option.any_some]
      exact hnamed
    · simp [readOne, hc, Reading.named]

end HeaderBridge.Grammar
