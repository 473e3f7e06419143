import HeaderBridge.Proofs.Grammar.Appending

/-! # What the end of a text exposes

A reading of a text and the reading of the text with a line behind it go the same
way until one of them comes to the end of the text. The form of an expression
limits how they can part there, and an expression that ends with a delimiter which
the line does not have does not let them part at all.
-/

namespace HeaderBridge.Grammar

open HeaderBridge.Grammar.Expr

/-- How a reading of a text and the reading with a line behind it may part. -/
structure Exposure where
  /-- Both may come to the end of the text. -/
  reaches : Bool := false
  /-- With the line there may be a reading where there is none without it. -/
  gains : Bool := false
  /-- The expressions that may be left out, where they can only be read with the line. -/
  stops : List Expr := []

/-- The expression can only be read with the line. -/
structure Expr.GainsAt (mode : Mode) (e : Expr) (cs : List Char) : Prop where
  ne : cs ≠ []
  without : e.reading mode cs = none
  withLine : (e.reading mode (cs ++ closingLine)).isSome = true

/-- The second of two readings is the first one with the line, as far as the end of the text does
not make them part. -/
inductive Extends (mode : Mode) (s : Exposure) : Reading → Reading → Prop where
  | same (x : Reading) : Extends mode s x x.withLine
  | reaches {c c' : List Char} {ns ns' : List Node} (hs : s.reaches = true)
      (hc : skipBetween mode c = []) (hc' : c' <:+ closingLine) :
      Extends mode s (some (c, ns)) (some (c', ns'))
  | gains {c' : List Char} {ns' : List Node} (hs : s.gains = true) (hc' : c' <:+ closingLine) :
      Extends mode s none (some (c', ns'))
  | stops {e : Expr} {c c' : List Char} {ns ns' : List Node} (hs : e ∈ s.stops)
      (he : e.GainsAt mode (skipBetween mode c)) (hc' : c' <:+ closingLine) :
      Extends mode s (some (c, ns)) (some (c', ns'))

/-- An expression is read with the line as it is read without it, up to an exposure. -/
def Expr.Steady (mode : Mode) (e : Expr) (s : Exposure) (cs : List Char) : Prop :=
  Extends mode s (e.reading mode cs) (e.reading mode (cs ++ closingLine))

/-- There is something to read, and no gap in front of it. -/
structure Begins (mode : Mode) (cs : List Char) : Prop where
  ne : cs ≠ []
  solid : skipBetween mode cs = cs

/-- Where the first expression can only be read with the line, the second reads nothing. -/
def Expr.Passes (mode : Mode) (e b : Expr) : Prop :=
  ∀ cs c ns, Begins mode cs → e.GainsAt mode cs → b.reading mode cs = some (c, ns) → c = cs

variable {mode : Mode} {s t : Exposure} {x y : Reading} {cs c : List Char}

theorem begins_skipBetween (h : skipBetween mode c ≠ []) : Begins mode (skipBetween mode c) :=
  ⟨h, skipBetween_skipBetween mode c⟩

theorem Begins.append_line (h : Begins mode cs) :
    skipBetween mode (cs ++ closingLine) = cs ++ closingLine := by
  rw [skipBetween_append_line (by rw [h.solid]; exact h.ne), h.solid]

/-! ### Exposures -/

def Exposure.le (s t : Exposure) : Bool :=
  (!s.reaches || t.reaches) && (!s.gains || t.gains) && s.stops.all (· ∈ t.stops)

theorem Extends.mono (h : Extends mode s x y) (hle : s.le t = true) : Extends mode t x y := by
  simp only [Exposure.le, Bool.and_eq_true, Bool.or_eq_true, Bool.not_eq_true', List.all_eq_true,
    decide_eq_true_eq] at hle
  obtain ⟨⟨hreaches, hgains⟩, hstops⟩ := hle
  cases h with
  | same => exact .same x
  | reaches hs hc hc' => exact .reaches (hreaches.resolve_left (by simp [hs])) hc hc'
  | gains hs hc' => exact .gains (hgains.resolve_left (by simp [hs])) hc'
  | stops hs he hc' => exact .stops (hstops _ hs) he hc'

theorem Expr.Steady.mono {e : Expr} (h : e.Steady mode s cs) (hle : s.le t = true) :
    e.Steady mode t cs :=
  Extends.mono h hle

theorem Extends.map {f g : List Char × List Node → List Node} (h : Extends mode s x y)
    (hfg : ∀ c ns, g (c ++ closingLine, ns) = f (c, ns)) :
    Extends mode s (x.map fun z => (z.1, f z)) (y.map fun z => (z.1, g z)) := by
  cases h with
  | same =>
    have hmap : Reading.withLine (x.map fun z => (z.1, f z)) =
        x.withLine.map fun z => (z.1, g z) := by
      cases x with
      | none => rfl
      | some z =>
        obtain ⟨c, ns⟩ := z
        simp only [Reading.withLine, Option.map_some, hfg]
    rw [← hmap]
    exact .same _
  | reaches hs hc hc' => exact .reaches hs hc hc'
  | gains hs hc' => exact .gains hs hc'
  | stops hs he hc' => exact .stops hs he hc'

theorem Extends.prepend (h : Extends mode s x y) (ns : List Node) :
    Extends mode s (x.map fun z => (z.1, ns ++ z.2)) (y.map fun z => (z.1, ns ++ z.2)) :=
  h.map fun _ _ => rfl

theorem Extends.spaced (h : Extends .tight s x y) (hs : s.stops = []) : Extends .spaced s x y := by
  cases h with
  | same => exact .same x
  | reaches hr hc hc' =>
    obtain rfl := hc
    exact .reaches hr skipGap_nil hc'
  | gains hg hc' => exact .gains hg hc'
  | stops he => simp [hs] at he

/-! ### Behind the end of the text -/

/-- What an expression may do where the text has ended. -/
def Expr.atEnd (e : Expr) : Exposure := { reaches := e.total, gains := !e.refuses && !e.total }

/-- An expression that reads the empty text reads every text. -/
def Expr.decided (e : Expr) : Bool := e.total || !e.mayBeEmpty

section Line

variable {e : Expr}

theorem Expr.reading_nil_of_consumes (he : e.mayBeEmpty = false) : e.reading mode [] = none := by
  cases h : e.reading mode [] with
  | none => rfl
  | some z => exact absurd (reading_length_lt e he h) (Nat.not_lt_zero _)

theorem Expr.reading_nil (he : e.decided = true) (ht : e.total = false) :
    e.reading mode [] = none := by
  rw [decided, ht, Bool.false_or, Bool.not_eq_true'] at he
  exact reading_nil_of_consumes he

theorem Expr.refuses_eq_false (hc : c <:+ closingLine) (h : (e.reading mode c).isSome = true) :
    e.refuses = false := by
  rw [← Bool.not_eq_true]
  intro hr
  rw [reading_of_refuses hr hc] at h
  cases h

theorem Expr.extends_gained (hc : c <:+ closingLine) (hs : e.refuses = false → s.gains = true)
    (ns : List Node) : Extends mode s none ((e.reading mode c).map fun z => (z.1, ns ++ z.2)) := by
  cases h : e.reading mode c with
  | none => exact .same none
  | some z =>
    exact .gains (hs (refuses_eq_false hc (by rw [h]; rfl))) ((reading_suffix e h).trans hc)

theorem Expr.extends_atEnd (he : e.decided = true) (hc : c <:+ closingLine)
    (ns ns' : List Node) :
    Extends mode e.atEnd ((e.reading mode []).map fun z => (z.1, ns ++ z.2))
      ((e.reading mode c).map fun z => (z.1, ns' ++ z.2)) := by
  by_cases ht : e.total = true
  · obtain ⟨⟨c₁, ns₁⟩, h₁⟩ := Option.isSome_iff_exists.mp (isSome_reading_of_total ht [])
    obtain ⟨⟨c₂, ns₂⟩, h₂⟩ := Option.isSome_iff_exists.mp (isSome_reading_of_total ht c)
    rw [h₁, h₂]
    obtain rfl := List.suffix_nil.mp (reading_suffix e h₁)
    exact .reaches ht (skipBetween_nil mode) ((reading_suffix e h₂).trans hc)
  · rw [Bool.not_eq_true] at ht
    rw [reading_nil he ht]
    exact extends_gained hc (fun hr => by simp [atEnd, ht, hr]) ns'

end Line

/-! ### Sequences -/

def Exposure.andThen (s : Exposure) (b : Expr) (t : Exposure) : Exposure where
  reaches := t.reaches || b.total
  gains := t.gains || !b.refuses && (s.gains || !b.total)
  stops := t.stops ++ if b.total then s.stops else []

theorem Expr.atEnd_le_andThen (s : Exposure) (b : Expr) (t : Exposure) :
    b.atEnd.le (s.andThen b t) = true := by
  cases hr : b.refuses <;> cases ht : b.total <;>
    simp [Exposure.le, atEnd, Exposure.andThen, hr, ht]

theorem Exposure.le_andThen (s : Exposure) (b : Expr) (t : Exposure) :
    t.le (s.andThen b t) = true := by
  have hstops : ∀ e ∈ t.stops, e ∈ (s.andThen b t).stops := fun e he => List.mem_append_left _ he
  cases hr : t.reaches <;> cases hg : t.gains <;>
    simpa [Exposure.le, Exposure.andThen, hr, hg] using hstops

section Seq

variable {a b : Expr}

/-- Where the first part stops, the second is not read, or it is absent and so read of the line as
well. -/
theorem Expr.extends_stopped {e : Expr} {c' : List Char} (hs : e ∈ s.stops)
    (he : e.GainsAt mode (skipBetween mode c)) (hc' : c' <:+ closingLine) (hend : b.decided = true)
    (hpass : e.Passes mode b) (ns ns' : List Node) :
    Extends mode (s.andThen b t)
    ((b.reading mode (skipBetween mode c)).map fun z => (z.1, ns ++ z.2))
      ((b.reading mode c').map fun z => (z.1, ns' ++ z.2)) := by
  cases hx : b.reading mode (skipBetween mode c) with
  | none =>
    have ht : b.total = false := by
      rw [← Bool.not_eq_true]
      intro ht
      have hsome : (b.reading mode (skipBetween mode c)).isSome = true :=
        isSome_reading_of_total ht _
      rw [hx] at hsome
      cases hsome
    exact extends_gained hc' (fun hr => by simp [Exposure.andThen, ht, hr]) ns'
  | some z =>
    obtain ⟨c₁, ns₁⟩ := z
    obtain rfl := hpass _ _ _ (begins_skipBetween he.ne) he hx
    have ht : b.total = true := by
      rw [Expr.decided, Bool.or_eq_true, Bool.not_eq_true'] at hend
      refine hend.resolve_right fun hempty => ?_
      exact absurd (reading_length_lt b hempty hx) (Nat.lt_irrefl _)
    obtain ⟨z, hy⟩ := Option.isSome_iff_exists.mp (isSome_reading_of_total ht c')
    rw [hy]
    refine .stops (e := e) ?_ ?_ ((reading_suffix b hy).trans hc')
    · simp [Exposure.andThen, ht, hs]
    · rwa [skipBetween_skipBetween]

theorem Extends.andThen (h : Extends mode s x y)
    (hb : ∀ c ns, x = some (c, ns) → skipBetween mode c ≠ [] → b.Steady mode t (skipBetween mode c))
    (hend : b.decided = true) (hpass : ∀ e ∈ s.stops, e.Passes mode b) :
    Extends mode (s.andThen b t) (x.andThen fun c => b.reading mode (skipBetween mode c))
      (y.andThen fun c => b.reading mode (skipBetween mode c)) := by
  have hline : ∀ {c : List Char}, c <:+ closingLine → skipBetween mode c <:+ closingLine :=
    fun hc => (skipBetween_suffix mode _).trans hc
  cases h with
  | same =>
    cases x with
    | none => exact .same none
    | some z =>
      obtain ⟨c, ns⟩ := z
      rw [Reading.withLine, Option.map_some, Reading.some_andThen, Reading.some_andThen]
      by_cases hc : skipBetween mode c = []
      · rw [hc]
        exact (extends_atEnd hend (skipBetween_append_line_suffix hc) ns ns).mono
          (atEnd_le_andThen s b t)
      · rw [skipBetween_append_line hc]
        exact Extends.prepend ((hb c ns rfl hc).mono (Exposure.le_andThen s b t)) ns
  | reaches hs hc hc' =>
    rw [Reading.some_andThen, Reading.some_andThen, hc]
    exact (extends_atEnd hend (hline hc') _ _).mono (atEnd_le_andThen s b t)
  | gains hs hc' =>
    rw [Reading.none_andThen, Reading.some_andThen]
    exact extends_gained (hline hc') (fun hr => by simp [Exposure.andThen, hs, hr]) _
  | stops hs he hc' =>
    rw [Reading.some_andThen, Reading.some_andThen]
    exact extends_stopped hs he (hline hc') hend (hpass _ hs) _ _

theorem Expr.Steady.seq (ha : a.Steady mode s cs)
    (hb : ∀ c ns, a.reading mode cs = some (c, ns) → skipBetween mode c ≠ [] →
      b.Steady mode t (skipBetween mode c))
    (hend : b.decided = true) (hpass : ∀ e ∈ s.stops, e.Passes mode b) :
    (Expr.seq a b).Steady mode (s.andThen b t) cs := by
  rw [Steady, reading_seq, reading_seq]
  exact Extends.andThen ha hb hend hpass

end Seq

/-! ### Alternatives -/

def Exposure.orElse (s t : Exposure) : Exposure where
  reaches := s.reaches || t.reaches
  gains := t.gains
  stops := s.stops ++ t.stops

theorem Extends.orElse {x' y' : Reading} (h : Extends mode s x y) (hs : s.gains = false)
    (h' : x = none → Extends mode t x' y') : Extends mode (s.orElse t) (x.or x') (y.or y') := by
  cases h with
  | same =>
    cases x with
    | none =>
      refine (h' rfl).mono ?_
      cases hr : t.reaches <;> cases hg : t.gains <;>
        simp +contextual [Exposure.le, Exposure.orElse, hr, hg]
    | some z => exact .same (some z)
  | reaches hr hc hc' => exact .reaches (by simp [Exposure.orElse, hr]) hc hc'
  | gains hg => simp [hs] at hg
  | stops he hgain hc' => exact .stops (List.mem_append_left _ he) hgain hc'

theorem Expr.Steady.choice {a b : Expr} (ha : a.Steady mode s cs) (hs : s.gains = false)
    (hb : b.Steady mode t cs) : (Expr.choice a b).Steady mode (s.orElse t) cs := by
  rw [Steady, reading_choice, reading_choice]
  exact Extends.orElse ha hs fun _ => hb

/-- What is left out where it can only be read with the line. -/
def Exposure.optional (s : Exposure) (e : Expr) : List Expr :=
  s.stops ++ if s.gains then [e] else []

theorem Exposure.mem_optional_of_gains {e : Expr} (hs : s.gains = true) : e ∈ s.optional e := by
  simp [Exposure.optional, hs]

theorem Expr.Steady.opt {a : Expr} (hcs : Begins mode cs) (ha : a.Steady mode s cs) :
    (Expr.opt a).Steady mode { reaches := s.reaches, stops := s.optional a } cs := by
  rw [Steady, reading_opt, reading_opt]
  rw [Steady] at ha
  generalize hx : a.reading mode cs = x at ha
  generalize hy : a.reading mode (cs ++ closingLine) = y at ha
  cases ha with
  | same =>
    cases x with
    | none => exact .same (some (cs, []))
    | some z => exact .same (some z)
  | reaches hr hc hc' => exact .reaches hr hc hc'
  | gains hg hc' =>
    refine .stops (e := a) (Exposure.mem_optional_of_gains hg) ?_ hc'
    rw [hcs.solid]
    exact ⟨hcs.ne, hx, by rw [hy]; rfl⟩
  | stops he hgain hc' => exact .stops (List.mem_append_left _ he) hgain hc'

theorem Expr.Steady.notAhead {a : Expr} (ha : a.Steady mode s cs) (hs : s.gains = false) :
    (Expr.notAhead a).Steady mode {} cs := by
  rw [Steady, reading_notAhead, reading_notAhead]
  have hsome : (a.reading mode (cs ++ closingLine)).isSome = (a.reading mode cs).isSome := by
    rw [Steady] at ha
    generalize a.reading mode cs = x at ha
    generalize a.reading mode (cs ++ closingLine) = y at ha
    cases ha with
    | same => cases x <;> rfl
    | reaches | stops => rfl
    | gains hg => simp [hs] at hg
  rw [hsome]
  cases (a.reading mode cs).isSome with
  | true => exact .same none
  | false => exact .same (some (cs, []))

/-! ### Repetitions -/

theorem readRounds_suffix_line {a : Expr} {c' : List Char} (hc' : c' <:+ closingLine)
    (ns : List Node) :
    (readRounds (fun cs => a.reading mode (skipBetween mode cs)) c' ns).1 <:+ closingLine :=
  readRounds_keeps (Q := fun c _ => c <:+ closingLine)
    (fun hc hs => (reading_suffix a hs).trans ((skipBetween_suffix mode _).trans hc)) hc'

def Exposure.rounds (s : Exposure) (a : Expr) : Exposure where
  reaches := s.reaches || !a.refuses
  stops := s.optional a

section Rounds

variable {a : Expr}

theorem length_of_round (hempty : a.mayBeEmpty = false) {d : List Char} {ms : List Node}
    (h : a.reading mode (skipBetween mode c) = some (d, ms)) : d.length < c.length := by
  have hlt := reading_length_lt a hempty h
  have hle := (skipBetween_suffix mode c).length_le
  omega

theorem readRounds_of_round (hempty : a.mayBeEmpty = false) {d : List Char} {ms : List Node}
    (h : a.reading mode (skipBetween mode c) = some (d, ms)) (ns : List Node) :
    readRounds (fun cs => a.reading mode (skipBetween mode cs)) c ns =
      readRounds (fun cs => a.reading mode (skipBetween mode cs)) d (ns ++ ms) := by
  rw [readRounds_of_some (by exact h) (length_of_round hempty h)]

theorem readRounds_of_stop (h : a.reading mode (skipBetween mode c) = none) (ns : List Node) :
    readRounds (fun cs => a.reading mode (skipBetween mode cs)) c ns = (c, ns) := by
  rw [readRounds_of_none (by exact h)]

theorem Expr.Passes.reading_eq_none {e : Expr} (h : e.Passes mode a) (hempty : a.mayBeEmpty = false)
    (he : e.GainsAt mode (skipBetween mode c)) : a.reading mode (skipBetween mode c) = none := by
  cases ha : a.reading mode (skipBetween mode c) with
  | none => rfl
  | some z =>
    have hlt := reading_length_lt a hempty ha
    rw [h _ _ _ (begins_skipBetween he.ne) he ha] at hlt
    exact absurd hlt (Nat.lt_irrefl _)

theorem extends_rounds_of_end (hempty : a.mayBeEmpty = false) (hend : skipBetween mode c = [])
    (ns : List Node) : Extends mode (s.rounds a)
      (some (readRounds (fun cs => a.reading mode (skipBetween mode cs)) c ns))
      (some (readRounds (fun cs => a.reading mode (skipBetween mode cs))
        (c ++ closingLine) ns)) := by
  rw [readRounds_of_stop (by rw [hend, reading_nil_of_consumes hempty])]
  have hline := skipBetween_append_line_suffix hend
  cases hy : a.reading mode (skipBetween mode (c ++ closingLine)) with
  | none =>
    rw [readRounds_of_stop hy]
    exact .same (some (c, ns))
  | some z =>
    have hrefuses := refuses_eq_false hline (by rw [hy]; rfl)
    rw [readRounds_of_round hempty hy]
    exact .reaches (by simp [Exposure.rounds, hrefuses]) hend
      (readRounds_suffix_line ((reading_suffix a hy).trans hline) _)

theorem extends_rounds (hempty : a.mayBeEmpty = false)
    (ha : ∀ c, c <:+ cs → Begins mode c → a.Steady mode s c)
    (hpass : ∀ e ∈ s.stops, e.Passes mode a) (hc : c <:+ cs) (ns : List Node) :
    Extends mode (s.rounds a)
      (some (readRounds (fun cs => a.reading mode (skipBetween mode cs)) c ns))
      (some (readRounds (fun cs => a.reading mode (skipBetween mode cs))
        (c ++ closingLine) ns)) := by
  induction hn : c.length using Nat.strongRecOn generalizing c ns with | ind n ih => ?_
  subst hn
  by_cases hend : skipBetween mode c = []
  · exact extends_rounds_of_end hempty hend ns
  · have hsub := (skipBetween_suffix mode c).trans hc
    have hround := ha _ hsub (begins_skipBetween hend)
    rw [Steady] at hround
    have happend := skipBetween_append_line hend
    generalize hx : a.reading mode (skipBetween mode c) = x at hround
    generalize hy : a.reading mode (skipBetween mode c ++ closingLine) = y at hround
    rw [← happend] at hy
    cases hround with
    | same =>
      cases x with
      | none =>
        rw [readRounds_of_stop hx, readRounds_of_stop hy]
        exact .same (some (c, ns))
      | some z =>
        obtain ⟨d, ms⟩ := z
        rw [readRounds_of_round hempty hx, readRounds_of_round hempty hy]
        exact ih _ (length_of_round hempty hx) ((reading_suffix a hx).trans hsub) _ rfl
    | reaches hr hd hd' =>
      rw [readRounds_of_round hempty hx, readRounds_of_round hempty hy,
        readRounds_of_stop (by rw [hd, reading_nil_of_consumes hempty])]
      exact .reaches (by simp [Exposure.rounds, hr]) hd (readRounds_suffix_line hd' _)
    | gains hg hd' =>
      rw [readRounds_of_stop hx, readRounds_of_round hempty hy]
      refine .stops (e := a) (Exposure.mem_optional_of_gains hg) ?_ (readRounds_suffix_line hd' _)
      exact ⟨hend, hx, by rw [← happend, hy]; rfl⟩
    | stops he hgain hd' =>
      rw [readRounds_of_round hempty hx, readRounds_of_round hempty hy,
        readRounds_of_stop ((hpass _ he).reading_eq_none hempty hgain)]
      exact .stops (List.mem_append_left _ he) hgain (readRounds_suffix_line hd' _)

theorem Expr.Steady.many (hempty : a.mayBeEmpty = false) (hcs : Begins mode cs)
    (ha : ∀ c, c <:+ cs → Begins mode c → a.Steady mode s c)
    (hpass : ∀ e ∈ s.stops, e.Passes mode a) : (Expr.many a).Steady mode (s.rounds a) cs := by
  rw [Steady, reading_many_eq_rounds hempty hcs.solid,
    reading_many_eq_rounds hempty hcs.append_line]
  exact extends_rounds hempty ha hpass (List.suffix_refl cs) []

end Rounds

/-! ### The exposure of an expression -/

def Rule.partsOfTokens : List Rule :=
  [.identChar, .skippedBlock, .objcDirective, .directiveLine, .macroName, .macroArguments,
    .primitiveWord]

def Rule.outermost : List Rule :=
  [.endOfInput, .whitespace, .comment, .translationUnit, .externalDeclaration, .classInterface,
    .typeNameEntry]

/-- Whether declarations call a rule in the given mode. -/
def Rule.isCalled (mode : Mode) (r : Rule) : Bool :=
  match mode with
  | .tight => r ∈ partsOfTokens
  | .spaced => r ∉ partsOfTokens && r ∉ outermost

/-- How readings of a rule may part at the end of a text. -/
def Rule.exposure : Rule → Exposure
  | .skippedDeclaration | .preprocessorDirective | .arrayLength | .declarationMacro | .className
  | .visibilitySection | .interfaceDeclarationList | .protocolDeclarationList | .interfaceMember
  | .typeSpecifier | .pointer | .pointerLevel | .directDeclarator | .abstractDeclarator =>
    { reaches := true }
  | .keywordDeclarator | .taggedTypeSpecifier => { gains := true }
  | .fieldDeclarator | .specifierQualifierList | .typeArgument | .declarator
  | .parameterDeclaration | .typeName => { reaches := true, gains := true }
  | .genericParameter =>
    { reaches := true, gains := true, stops := [lit ":" ++ call .typeArgument] }
  | .protocolList => { reaches := true, stops := [lit "," ++ call .protocolName] }
  | .propertyAttribute => { stops := [lit "=" ++ call .identifier] }
  | .propertyAttributesList =>
    { reaches := true, stops := [lit "," ++ call .propertyAttribute, lit "=" ++ call .identifier] }
  | .methodSelector => { reaches := true, gains := true, stops := [call .keywordDeclarator] }
  | .fieldDeclaratorList =>
    { reaches := true, gains := true, stops := [lit "," ++ call .fieldDeclarator] }
  | _ => {}

theorem Expr.not_gainsAt_of_misses {e : Expr} {f : Char} (hf : isSolid f = true)
    (he : e.misses f = true) (hempty : e.mayBeEmpty = false) (h : cs.head? = some f) :
    ¬ e.GainsAt mode cs := by
  intro hgain
  obtain ⟨cs, rfl⟩ := List.head?_eq_some_iff.mp h
  obtain ⟨z, hz⟩ := Option.isSome_iff_exists.mp hgain.withLine
  have hlt := reading_length_lt e hempty hz
  rw [rest_of_misses hf he hz] at hlt
  exact absurd hlt (Nat.lt_irrefl _)

/-- Where the first expression can only be read with the line, the second reads nothing, since the
character that one of them begins with is none that the other begins with. -/
def Expr.passes (e b : Expr) : Bool :=
  (e.firstChar?.any fun f => isSolid f && b.misses f) ||
    (b.firstChar?.any fun f => isSolid f && e.misses f && !e.mayBeEmpty)

theorem Expr.passes_of {e b : Expr} (h : e.passes b = true) : e.Passes mode b := by
  intro cs c ns hcs hgain hb
  rw [passes, Bool.or_eq_true, Option.any_eq_true, Option.any_eq_true] at h
  rcases h with ⟨f, hf, hmiss⟩ | ⟨f, hf, hmiss⟩
  · rw [Bool.and_eq_true] at hmiss
    have hhead := head?_of_firstChar? hf hgain.withLine
    rw [List.head?_append_of_ne_nil _ hcs.ne] at hhead
    obtain ⟨cs, rfl⟩ := List.head?_eq_some_iff.mp hhead
    exact rest_of_misses hmiss.1 hmiss.2 hb
  · rw [Bool.and_eq_true, Bool.and_eq_true, Bool.not_eq_true'] at hmiss
    have hhead := head?_of_firstChar? hf (Option.isSome_iff_exists.mpr ⟨_, hb⟩)
    exact absurd hgain (not_gainsAt_of_misses hmiss.1.1 hmiss.1.2 hmiss.2 hhead)

def Expr.isLookahead : Expr → Bool
  | notAhead _ => true
  | _ => false

/-- How readings of an expression may part at the end of a text, as far as can be told from its
form and the exposures of the rules that it calls. -/
def Expr.expose (mode : Mode) : Expr → Option Exposure
  | literal l => if '\n' ∈ l then none else some {}
  | char _ => some {}
  | start | finish => none
  | .call r => if r.isCalled mode then some r.exposure else none
  | seq a b =>
    if mode = .tight ∧ (seq a b).settled = true then some {}
    else (a.expose mode).bind fun s => (b.expose mode).bind fun t =>
      if a.isLookahead then some t
      else if b.decided && s.stops.all (·.passes b) then some (s.andThen b t)
      else none
  | choice a b => (a.expose mode).bind fun s => (b.expose mode).bind fun t =>
    if s.gains then none else some (s.orElse t)
  | opt a => (a.expose mode).map fun s => { reaches := s.reaches, stops := s.optional a }
  | many a =>
    if mode = .tight ∧ (many a).settled = true then some {}
    else (a.expose mode).bind fun s =>
      if !a.mayBeEmpty && s.stops.all (·.passes a) then some (s.rounds a) else none
  | notAhead a => (a.expose mode).bind fun s => if s.gains then none else some {}

/-- The called rules are steady on texts of a length below the given one; the given rules also on
texts of that length. -/
def Known (mode : Mode) (len : Nat) (first : List Rule) : Prop :=
  ∀ r, r.isCalled mode = true → ∀ cs, Begins mode cs →
    cs.length < len ∨ cs.length ≤ len ∧ r ∈ first → (call r).Steady mode r.exposure cs

variable {len : Nat} {first : List Rule}

theorem Known.mono {first' : List Rule} (h : Known mode len first) (hsub : first' ⊆ first) :
    Known mode len first' :=
  fun r hr cs hcs hlen => h r hr cs hcs (hlen.imp id fun h => ⟨h.1, hsub h.2⟩)

theorem Known.shorter {len' : Nat} (h : Known mode len first) (hlt : len' < len)
    (first' : List Rule) : Known mode len' first' :=
  fun r hr cs hcs hlen => h r hr cs hcs (.inl (by omega))

/-- Behind the first part of a sequence, what the second part calls first is known. -/
theorem Known.behind {a b : Expr} (h : Known mode len (Expr.seq a b).firstCalls)
    (hlen : cs.length ≤ len) {ns : List Node} (hread : a.reading mode cs = some (c, ns)) :
    ∃ len', Known mode len' b.firstCalls ∧ (skipBetween mode c).length ≤ len' := by
  have hskip := skipBetween_suffix mode c
  have hle := (hskip.trans (reading_suffix a hread)).length_le
  cases hempty : a.mayBeEmpty with
  | true =>
    refine ⟨len, h.mono ?_, by omega⟩
    rw [firstCalls, hempty]
    exact List.subset_append_right _ _
  | false =>
    have hlt := reading_length_lt a hempty hread
    have hle' := hskip.length_le
    exact ⟨_, h.shorter (by omega) _, Nat.le_refl _⟩

theorem Expr.steady_literal {l : List Char} (hl : '\n' ∉ l) (cs : List Char) :
    (literal l).Steady mode {} cs := by
  rw [Steady, reading_literal_append_line hl]
  exact .same _

theorem Expr.steady_char (cls : CharClass) (hne : cs ≠ []) : (char cls).Steady mode {} cs := by
  obtain ⟨d, cs, rfl⟩ := List.exists_cons_of_ne_nil hne
  rw [Steady, List.cons_append, reading_char, reading_char, readOne, readOne]
  cases cls.contains d with
  | true => exact .same (some (cs, []))
  | false => exact .same none

theorem Expr.steady_of_settled {e : Expr} (he : e.settled = true) (cs : List Char) :
    e.Steady .tight {} cs := by
  rw [Steady, reading_of_settled he]
  exact .same _

theorem Expr.Steady.seq_lookahead {a b : Expr} (hcs : Begins mode cs)
    (ha : (Expr.notAhead a).Steady mode {} cs) (hb : b.Steady mode t cs) :
    (Expr.seq (Expr.notAhead a) b).Steady mode t cs := by
  rw [Steady, reading_notAhead, reading_notAhead] at ha
  rw [Steady, reading_seq, reading_seq, reading_notAhead, reading_notAhead]
  cases hx : (a.reading mode cs).isSome with
  | true =>
    rw [hx] at ha
    cases hy : (a.reading mode (cs ++ closingLine)).isSome with
    | true => exact .same none
    | false =>
      rw [hy] at ha
      cases ha with
      | gains hs => cases hs
  | false =>
    rw [hx] at ha
    cases hy : (a.reading mode (cs ++ closingLine)).isSome with
    | true =>
      rw [hy] at ha
      cases ha
    | false =>
      simp only [Bool.false_eq_true, if_false, Reading.some_nil_andThen]
      rwa [hcs.append_line, hcs.solid]

theorem Expr.expose_notAhead {a : Expr} (h : (Expr.notAhead a).expose mode = some s) : s = {} := by
  rw [expose] at h
  obtain ⟨t, -, h⟩ := Option.bind_eq_some_iff.mp h
  split at h
  · cases h
  · exact (Option.some.inj h).symm

theorem Expr.steady_of_expose {e : Expr} (he : e.expose mode = some s)
    (hknown : Known mode len e.firstCalls) (hcs : Begins mode cs) (hlen : cs.length ≤ len) :
    e.Steady mode s cs := by
  induction e generalizing s len cs with
  | literal l =>
    rw [expose] at he
    split at he
    · cases he
    · next hl =>
      obtain rfl := Option.some.inj he
      exact steady_literal hl cs
  | char cls =>
    obtain rfl := Option.some.inj he
    exact steady_char cls hcs.ne
  | start | finish => cases he
  | call r =>
    rw [expose, Option.ite_none_right_eq_some, Option.some.injEq] at he
    obtain ⟨hr, rfl⟩ := he
    exact hknown r hr cs hcs (.inr ⟨hlen, by simp [firstCalls]⟩)
  | seq a b iha ihb =>
    rw [expose] at he
    split at he
    · next hsettled =>
      obtain rfl := Option.some.inj he
      obtain ⟨rfl, hsettled⟩ := hsettled
      exact steady_of_settled hsettled cs
    · obtain ⟨sa, ha, he⟩ := Option.bind_eq_some_iff.mp he
      obtain ⟨sb, hb, he⟩ := Option.bind_eq_some_iff.mp he
      have hsteady := iha ha (hknown.mono (List.subset_append_left _ _)) hcs hlen
      split at he
      · next hlook =>
        obtain rfl := Option.some.inj he
        cases a with
        | notAhead a =>
          obtain rfl := expose_notAhead ha
          have hknown' : Known mode len b.firstCalls := hknown.mono (List.subset_append_right _ _)
          exact Steady.seq_lookahead hcs hsteady (ihb hb hknown' hcs hlen)
        | _ => cases hlook
      · rw [Option.ite_none_right_eq_some, Option.some.injEq, Bool.and_eq_true,
          List.all_eq_true] at he
        obtain ⟨⟨hend, hpass⟩, rfl⟩ := he
        refine Steady.seq hsteady (fun c ns hread hne => ?_) hend fun e he => passes_of (hpass e he)
        obtain ⟨len', hknown', hlen'⟩ := hknown.behind hlen hread
        exact ihb hb hknown' (begins_skipBetween hne) hlen'
  | choice a b iha ihb =>
    rw [expose] at he
    obtain ⟨sa, ha, he⟩ := Option.bind_eq_some_iff.mp he
    obtain ⟨sb, hb, he⟩ := Option.bind_eq_some_iff.mp he
    split at he
    · cases he
    · next hgains =>
      obtain rfl := Option.some.inj he
      exact Steady.choice
        (iha ha (hknown.mono (List.subset_append_left _ _)) hcs hlen)
        (by simpa using hgains)
        (ihb hb (hknown.mono (List.subset_append_right _ _)) hcs hlen)
  | opt a ih =>
    rw [expose] at he
    obtain ⟨sa, ha, rfl⟩ := Option.map_eq_some_iff.mp he
    exact Steady.opt hcs (ih ha hknown hcs hlen)
  | many a ih =>
    rw [expose] at he
    split at he
    · next hsettled =>
      obtain rfl := Option.some.inj he
      obtain ⟨rfl, hsettled⟩ := hsettled
      exact steady_of_settled hsettled cs
    · obtain ⟨sa, ha, he⟩ := Option.bind_eq_some_iff.mp he
      rw [Option.ite_none_right_eq_some, Option.some.injEq] at he
      obtain ⟨hchecks, rfl⟩ := he
      rw [Bool.and_eq_true, List.all_eq_true, Bool.not_eq_true'] at hchecks
      refine Steady.many hchecks.1 hcs (fun c hc hbegins => ?_)
        fun e he => passes_of (hchecks.2 e he)
      exact ih ha hknown hbegins (hc.length_le.trans hlen)
  | notAhead a ih =>
    rw [expose] at he
    obtain ⟨sa, ha, he⟩ := Option.bind_eq_some_iff.mp he
    split at he
    · cases he
    · next hgains =>
      obtain rfl := Option.some.inj he
      exact Steady.notAhead (ih ha hknown hcs hlen) (by simpa using hgains)

end HeaderBridge.Grammar
