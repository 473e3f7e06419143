import HeaderBridge.Proofs.Grammar.AuditedHeaders
import HeaderBridge.Proofs.Grammar.Specifiers

/-! # Heads of class interfaces

Behind a superclass, angle brackets hold the protocols of a class. Behind the name
of the class they are its generic parameters, unless one of the words in them says
how a parameter varies.
-/

namespace HeaderBridge

open Grammar Grammar.Expr

namespace Grammar

variable {cs zs name w : List Char} {ws : List (List Char)} {c : Char} {e : Expr} {mode : Mode}

/-! ### Literals at the front -/

/-- The literal that an expression begins with. -/
def Expr.front? : Expr → Option (List Char)
  | literal l => some l
  | seq a _ => a.front?
  | _ => none

theorem Expr.reading_of_not_front {l : List Char} (he : e.front? = some l) (h : ¬ l <+: cs) :
    e.reading mode cs = none := by
  induction e with
  | literal l' =>
    obtain rfl : l' = l := Option.some.inj he
    rw [reading_literal, if_neg h]
  | seq a b ih => rw [reading_seq, ih he, Reading.none_andThen]
  | _ => cases he

theorem Expr.reading_opt_of_not_front {l : List Char} (he : e.front? = some l) (h : ¬ l <+: cs) :
    (opt e).reading mode cs = some (cs, []) := by
  rw [reading_opt, reading_of_not_front he h, Option.getD_none]

theorem Rule.reading_of_not_front {r : Rule} {l : List Char} (hr : r.body.front? = some l)
    (h : ¬ l <+: cs) : (call r).reading mode cs = none := by
  rw [reading_call, Rule.reading_eq_none, Expr.reading_of_not_front hr h]

theorem Expr.reading_literal_append (l : List Char) :
    (literal l).reading mode (l ++ cs) = some (cs, []) := by
  rw [reading_literal, if_pos (List.prefix_append l cs), List.drop_left]

theorem Expr.reading_seq_blank {a b : Expr} {ns : List Node}
    (h : a.reading .spaced cs = some (' ' :: zs, ns)) (hz : Firm zs) :
    (seq a b).reading .spaced cs = (b.reading .spaced zs).map fun y => (y.1, ns ++ y.2) := by
  have hskip : skipGap (' ' :: zs) = zs := (IsGap.blank zs).trans hz.solid.skipGap
  rw [reading_seq, h, Reading.some_andThen, skipBetween, hskip]

theorem Expr.reading_seq_firm {a b : Expr} {ns : List Node}
    (h : a.reading .spaced cs = some (zs, ns)) (hz : Firm zs) :
    (seq a b).reading .spaced cs = (b.reading .spaced zs).map fun y => (y.1, ns ++ y.2) := by
  rw [reading_seq, h, Reading.some_andThen, skipBetween, hz.solid.skipGap]

/-! ### Words in angle brackets -/

/-- The word is read as a whole before a comma or a closing bracket. -/
structure ReadsWord (e : Expr) (w : List Char) (n : Node) : Prop where
  firm : Firm w
  reading : ∀ c ∈ [',', '>'], ∀ zs, e.reading .spaced (w ++ c :: zs) = some (c :: zs, [n])

/-- What follows the first word of a list in angle brackets. -/
def listTail (ws : List (List Char)) (zs : List Char) : List Char :=
  ws.flatMap ([',', ' '] ++ ·) ++ zs

theorem listTail_cons (w : List Char) (ws : List (List Char)) (zs : List Char) :
    listTail (w :: ws) zs = ',' :: ' ' :: (w ++ listTail ws zs) := by
  simp [listTail]

theorem exists_listTail (ws : List (List Char)) (hc : c ∈ [',', '>']) (zs : List Char) :
    ∃ d ∈ [',', '>'], ∃ ds, listTail ws (c :: zs) = d :: ds := by
  cases ws with
  | nil => exact ⟨c, hc, zs, rfl⟩
  | cons w ws => exact ⟨',', by decide, _, listTail_cons w ws _⟩

theorem firm_of_listEnd (hc : c ∈ [',', '>']) (zs : List Char) : Firm (c :: zs) :=
  firm_of_mem (by decide) hc zs

abbrev Expr.listRound (e : Expr) : Expr := seq (literal [',']) e

theorem Expr.reading_listRound (hw : Firm w) (zs : List Char) :
    e.listRound.reading .spaced (',' :: ' ' :: (w ++ zs)) = e.reading .spaced (w ++ zs) := by
  have hcomma : (literal [',']).reading .spaced (',' :: ' ' :: (w ++ zs)) =
      some (' ' :: (w ++ zs), []) :=
    reading_literal_append [',']
  rw [reading_seq_blank hcomma (hw.append zs)]
  simp

theorem Expr.reading_listRound_of_ne (hc : c ≠ ',') (zs : List Char) :
    e.listRound.reading mode (c :: zs) = none :=
  reading_of_not_front rfl (by simpa using hc.symm)

/-- The rounds of a list go through its words, up to the first that cannot be read. -/
theorem readRounds_listTail {node : List Char → Node}
    (hws : ∀ w ∈ ws, ReadsWord e w (node w)) (hc : c ∈ [',', '>'])
    (hstop : e.listRound.reading .spaced (c :: zs) = none) (ns : List Node) :
    readRounds (fun cs => e.listRound.reading .spaced (skipBetween .spaced cs))
    (listTail ws (c :: zs)) ns =
      (c :: zs, ns ++ ws.map node) := by
  induction ws generalizing ns with
  | nil =>
    have hskip : skipBetween .spaced (c :: zs) = c :: zs := (firm_of_listEnd hc zs).solid.skipGap
    rw [listTail, List.flatMap_nil, List.nil_append, readRounds_of_none (by rw [hskip, hstop])]
    simp
  | cons w ws ih =>
    obtain ⟨d, hd, ds, htail⟩ := exists_listTail ws hc zs
    have hword := hws w List.mem_cons_self
    have hskip : skipBetween .spaced (',' :: ' ' :: (w ++ d :: ds)) =
        ',' :: ' ' :: (w ++ d :: ds) :=
      (firm_of_listEnd (by decide) _).solid.skipGap
    have hlt : (d :: ds).length < (',' :: ' ' :: (w ++ d :: ds)).length := by
      simp only [List.length_cons, List.length_append]
      omega
    rw [listTail_cons, htail, readRounds_of_some
      (by rw [hskip, reading_listRound hword.firm, hword.reading d hd]) hlt, ← htail,
      ih fun v hv => hws v (List.mem_cons_of_mem _ hv)]
    simp

/-- A list is read up to its end, or up to the first word that cannot be read. -/
theorem reading_sepBy_words {node : List Char → Node} (hws : ∀ v ∈ w :: ws, ReadsWord e v (node v))
    (hc : c ∈ [',', '>']) (hstop : e.listRound.reading .spaced (c :: zs) = none) :
    (sepBy e).reading .spaced (w ++ listTail ws (c :: zs)) =
      some (c :: zs, (w :: ws).map node) := by
  obtain ⟨d, hd, ds, htail⟩ := exists_listTail ws hc zs
  have hfirst := (hws w List.mem_cons_self).reading d hd ds
  have hrounds := readRounds_listTail (fun v hv => hws v (List.mem_cons_of_mem _ hv)) hc hstop
  have hmany : (many e.listRound).reading .spaced (d :: ds) = some (c :: zs, ws.map node) := by
    have hskip : skipBetween .spaced (d :: ds) = d :: ds := (firm_of_listEnd hd ds).solid.skipGap
    rw [reading_many_eq_rounds rfl hskip, ← htail, hrounds, List.nil_append]
  rw [htail, sepBy, reading_seq_firm hfirst (firm_of_listEnd hd ds), hmany]
  simp

/-! ### Names -/

theorem reading_identifier (hw : IsIdent w) (hz : Ends zs) :
    (call .identifier).reading .spaced (w ++ zs) = some (zs, [.token .identifier w]) := by
  rw [reading_call, Rule.identifier_reading, if_pos (startsIdent_append hw.start zs),
    identRest_append hw.chars hz, identRun_append hw.chars hz]

theorem Rule.reading_name {r : Rule} (hr : r.kind = .branch) (hbody : r.body = call .identifier)
    (hw : IsIdent w) (hz : Ends zs) : (call r).reading .spaced (w ++ zs) =
      some (zs, [.mk r 0 (.ofList w) [.token .identifier w]]) := by
  rw [reading_call, Rule.reading_branch hr, hbody, reading_identifier hw hz, Reading.named_some]

theorem ends_of_listEnd (hc : c ∈ [',', '>']) (zs : List Char) : Ends (c :: zs) := by
  intro d hd
  obtain rfl : c = d := by simpa using hd
  have hall : ∀ c ∈ [',', '>'], isIdentChar c = false := by decide
  exact hall c hc

def protocolNode (w : List Char) : Node := .mk .protocolName 0 (.ofList w) [.token .identifier w]

theorem readsWord_protocolName (hw : IsIdent w) :
    ReadsWord (call .protocolName) w (protocolNode w) :=
  ⟨hw.firm, fun _ hc zs => Rule.reading_name rfl rfl hw (ends_of_listEnd hc zs)⟩

/-- The word says how a generic parameter varies. -/
def isVariance (w : List Char) : Bool := String.ofList w ∈ Rule.variance.spellings

theorem reading_variance (hw : IsIdent w) (hz : Ends zs) :
    (call .variance).reading .spaced (w ++ zs) =
      if isVariance w then some (zs, [.token .variance w]) else none := by
  have hread : Rule.variance.reading .spaced (w ++ zs) = _ := Rule.word_reading rfl rfl (by decide)
  rw [reading_call, hread, identRest_append hw.chars hz, identRun_append hw.chars hz, isVariance]
  simp only [decide_eq_true_eq]
  rfl

theorem readsWord_genericParameter (hw : IsIdent w) (hv : isVariance w = false) :
    ReadsWord (call .genericParameter) w
      (.mk .genericParameter 0 (.ofList w) [.token .identifier w]) := by
  refine ⟨hw.firm, fun c hc zs => ?_⟩
  have hbody : Rule.genericParameter.body = seq (seq (opt (call .variance)) (call .identifier))
      (opt (seq (literal [':']) (call .typeArgument))) := rfl
  have hopt : (opt (call .variance)).reading .spaced (w ++ c :: zs) = some (w ++ c :: zs, []) := by
    rw [reading_opt, reading_variance hw (ends_of_listEnd hc zs), hv]
    rfl
  have hname : (seq (opt (call .variance)) (call .identifier)).reading .spaced (w ++ c :: zs) =
      some (c :: zs, [.token .identifier w]) := by
    rw [reading_seq_firm hopt (hw.firm.append _), reading_identifier hw (ends_of_listEnd hc zs)]
    rfl
  have hcolon : ¬ [':'] <+: c :: zs := by
    rw [List.cons_prefix_cons]
    rintro ⟨rfl, -⟩
    exact absurd hc (by decide)
  rw [reading_call, Rule.reading_branch rfl, hbody, reading_seq_firm hname (firm_of_listEnd hc zs),
    reading_opt_of_not_front rfl hcolon]
  exact Reading.named_some ..

theorem reading_genericParameter_of_variance (hw : IsIdent w) (hv : isVariance w = true)
    (hc : c ∈ [',', '>']) (zs : List Char) :
    (call .genericParameter).reading .spaced (w ++ c :: zs) = none := by
  have hbody : Rule.genericParameter.body = seq (seq (opt (call .variance)) (call .identifier))
      (opt (seq (literal [':']) (call .typeArgument))) := rfl
  have hopt : (opt (call .variance)).reading .spaced (w ++ c :: zs) =
      some (c :: zs, [.token .variance w]) := by
    rw [reading_opt, reading_variance hw (ends_of_listEnd hc zs), hv]
    rfl
  have hname : (call .identifier).reading .spaced (c :: zs) = none := by
    have hall : ∀ c ∈ [',', '>'], isIdentStart c = false := by decide
    rw [reading_call, Rule.identifier_reading, if_neg]
    simp [startsIdent, hall c hc]
  rw [reading_call, Rule.reading_branch rfl, hbody, reading_seq,
    reading_seq_firm hopt (firm_of_listEnd hc zs), hname]
  rfl

/-! ### Lists of names -/

theorem intercalate_comma (w : List Char) (ws : List (List Char)) (zs : List Char) :
    [',', ' '].intercalate (w :: ws) ++ zs = w ++ listTail ws zs := by
  induction ws generalizing w with
  | nil => simp [listTail]
  | cons v ws ih =>
    rw [List.intercalate_cons_cons, List.append_assoc, List.append_assoc, ih, listTail_cons]
    rfl

def inAngles (ws : List (List Char)) (zs : List Char) : List Char :=
  '<' :: ([',', ' '].intercalate ws ++ '>' :: zs)

theorem reading_openAngle (hw : Firm w) (ws : List (List Char)) (e : Expr) :
    (seq (literal ['<']) e).reading .spaced (inAngles (w :: ws) zs) =
      e.reading .spaced (w ++ listTail ws ('>' :: zs)) := by
  have hopen : (literal ['<']).reading .spaced (inAngles (w :: ws) zs) =
      some (w ++ listTail ws ('>' :: zs), []) := by
    rw [inAngles, intercalate_comma]
    exact reading_literal_append ['<']
  rw [reading_seq_firm hopen (hw.append _)]
  simp

theorem reading_closeAngle {ns : List Node} (h : e.reading .spaced cs = some ('>' :: zs, ns)) :
    (seq e (literal ['>'])).reading .spaced cs = some (zs, ns) := by
  have hclose : (literal ['>']).reading .spaced ('>' :: zs) = some (zs, []) :=
    reading_literal_append ['>']
  rw [reading_seq_firm h (firm_of_listEnd (by decide) zs), hclose]
  simp

theorem reading_protocols (hws : ∀ w ∈ ws, IsIdent w) (hne : ws ≠ []) (zs : List Char) :
    ∃ t, (enclosed '<' '>' (call .protocolList)).reading .spaced (inAngles ws zs) =
      some (zs, [.mk .protocolList 0 t (ws.map protocolNode)]) := by
  obtain ⟨w, ws, rfl⟩ := List.exists_cons_of_ne_nil hne
  have hlist : (sepBy (call .protocolName)).reading .spaced (w ++ listTail ws ('>' :: zs)) =
      some ('>' :: zs, (w :: ws).map protocolNode) :=
    reading_sepBy_words (fun v hv => readsWord_protocolName (hws v hv)) (by decide)
      (reading_listRound_of_ne (by decide) zs)
  have hbody : Rule.protocolList.body = sepBy (call .protocolName) := rfl
  have hopened : ∃ t, (seq (literal ['<']) (call .protocolList)).reading .spaced
      (inAngles (w :: ws) zs) =
        some ('>' :: zs, [.mk .protocolList 0 t ((w :: ws).map protocolNode)]) := by
    rw [reading_openAngle (hws w List.mem_cons_self).firm, reading_call, Rule.reading_branch rfl,
      hbody, hlist]
    exact ⟨_, rfl⟩
  exact hopened.imp fun t ht => reading_closeAngle ht

theorem Rule.genericParameterClause_reading : (call .genericParameterClause).reading .spaced cs =
    Reading.named .genericParameterClause cs ((seq (literal ['<'])
      (seq (sepBy (call .genericParameter)) (literal ['>']))).reading .spaced cs) := by
  have hbody : Rule.genericParameterClause.body =
      seq
        (seq (seq (literal ['<']) (call .genericParameter))
          (many (call .genericParameter).listRound))
        (literal ['>']) := rfl
  rw [reading_call, Rule.reading_branch rfl, hbody, reading_seq_assoc, reading_seq_assoc, sepBy,
    reading_seq, reading_seq]
  simp only [reading_seq_assoc]

theorem reading_clause (hws : ∀ w ∈ ws, IsIdent w) (hne : ws ≠ [])
    (hv : ∀ w ∈ ws, isVariance w = false) (zs : List Char) :
    ∃ n, (call .genericParameterClause).reading .spaced (inAngles ws zs) = some (zs, [n]) := by
  obtain ⟨w, ws, rfl⟩ := List.exists_cons_of_ne_nil hne
  have hstop : (call .genericParameter).listRound.reading .spaced ('>' :: zs) = none :=
    reading_listRound_of_ne (by decide) zs
  have hlist := reading_sepBy_words
    (fun v hv' => readsWord_genericParameter (hws v hv') (hv v hv')) (by decide) hstop
  rw [Rule.genericParameterClause_reading, reading_openAngle (hws w List.mem_cons_self).firm,
    reading_closeAngle hlist]
  exact ⟨_, rfl⟩

/-- A word that says how a parameter varies, with none behind it, keeps the brackets from being read
as generic parameters. -/
theorem reading_clause_of_variance (hws : ∀ w ∈ ws, IsIdent w) (hv : ∃ w ∈ ws, isVariance w = true)
    (zs : List Char) : (call .genericParameterClause).reading .spaced (inAngles ws zs) = none := by
  -- the first such word ends the list before its end
  obtain ⟨v, hfind⟩ := Option.isSome_iff_exists.mp (List.find?_isSome.mpr hv)
  obtain ⟨hvar, us, vs, rfl, hus⟩ := List.find?_eq_some_iff_append.mp hfind
  have hident := hws v (by simp)
  obtain ⟨d, hd, ds, htail⟩ := exists_listTail vs (c := '>') (by decide) zs
  have hnone := reading_genericParameter_of_variance hident hvar hd ds
  rw [Rule.genericParameterClause_reading]
  cases us with
  | nil =>
    rw [List.nil_append, reading_openAngle hident.firm, htail, reading_seq, sepBy, reading_seq,
      hnone]
    rfl
  | cons u us =>
    have hsplit : listTail (us ++ v :: vs) ('>' :: zs) =
        listTail us (',' :: ' ' :: (v ++ d :: ds)) := by
      rw [← htail, ← listTail_cons]
      simp [listTail]
    have hstop : (call .genericParameter).listRound.reading .spaced (',' :: ' ' :: (v ++ d :: ds)) =
        none := by
      rw [reading_listRound hident.firm, hnone]
    have hlist := reading_sepBy_words (fun w hw => readsWord_genericParameter
      (hws w (List.mem_append_left _ hw)) (by simpa using hus w hw)) (by decide) hstop
    have hclose : (literal ['>']).reading .spaced (',' :: ' ' :: (v ++ d :: ds)) = none := rfl
    rw [List.cons_append, reading_openAngle (hws u (by simp)).firm, hsplit,
      reading_seq_firm hlist (firm_of_listEnd (by decide) _), hclose]
    rfl

/-! ### Heads -/

/-- What a class interface consists of up to its protocols. -/
def classHead : Expr :=
  seq (seq interfaceHead (opt superclassPart)) (opt (enclosed '<' '>' (call .protocolList)))

/-- What a class interface consists of behind its protocols. -/
def classTail : Expr :=
  seq (opt (call .instanceVariables)) (seq (call .interfaceDeclarationList) (lit "@end"))

theorem Rule.classInterface_reading : (call .classInterface).reading .spaced cs =
    Reading.named .classInterface cs ((seq classHead classTail).reading .spaced cs) := by
  have hbody : Rule.classInterface.body = seq (seq (seq classHead (opt (call .instanceVariables)))
      (call .interfaceDeclarationList)) (lit "@end") := rfl
  rw [reading_call, Rule.reading_branch rfl, hbody, reading_seq_assoc, reading_seq_assoc]
  rfl

def interfaceText (name cs : List Char) : List Char :=
  "@interface".toList ++ ' ' :: (name ++ ' ' :: cs)

theorem reading_className (hname : IsIdent name) (hcs : Firm cs) :
    ∃ t, (call .className).reading .spaced (name ++ ' ' :: cs) =
      some ((((call .genericParameterClause).reading .spaced cs).getD (cs, [])).1,
        [.mk .className 0 t (.token .identifier name ::
          (((call .genericParameterClause).reading .spaced cs).getD (cs, [])).2)]) := by
  have hbody : Rule.className.body = seq (call .identifier) (opt (call .genericParameterClause)) :=
    rfl
  have hword := reading_identifier hname (IsGap.blank.ends (by decide) cs)
  rw [List.singleton_append] at hword
  rw [reading_call, Rule.reading_branch rfl, hbody, reading_seq_blank hword hcs, reading_opt]
  exact ⟨_, rfl⟩

theorem reading_interfaceHead (hname : IsIdent name) (hcs : Firm cs) :
    ∃ t, interfaceHead.reading .spaced (interfaceText name cs) =
      some ((((call .genericParameterClause).reading .spaced cs).getD (cs, [])).1,
        [.mk .className 0 t (.token .identifier name ::
          (((call .genericParameterClause).reading .spaced cs).getD (cs, [])).2)]) := by
  obtain ⟨t, ht⟩ := reading_className hname hcs
  have hword : (lit "@interface").reading .spaced (interfaceText name cs) =
      some (' ' :: (name ++ ' ' :: cs), []) := reading_literal_append _
  refine ⟨t, ?_⟩
  rw [interfaceHead, reading_seq_blank hword (hname.firm.append _), ht]
  rfl

/-! ### Nodes that are read -/

theorem Node.unplaced_unplaced (n : Node) : n.unplaced.unplaced = n.unplaced := by
  obtain ⟨r, s, t, ns⟩ := n
  have hparts : ns.map (Node.unplaced ∘ Node.unplaced) = ns.map Node.unplaced :=
    List.map_congr_left fun x _ => x.unplaced_unplaced
  rw [unplaced_mk, unplaced_mk, List.map_map, hparts]

theorem Node.ReadBetween.read_self {c : List Char} {m : Node} (h : m.ReadBetween cs c) :
    m.Read := by
  have hself : m.unplaced = m := by
    obtain ⟨ds, ds', -, -, -, hread⟩ := h
    obtain ⟨_, ns, _, _, -, hns⟩ := Rule.run_eq_matched hread
    obtain ⟨x, -, rfl⟩ := List.mem_map.mp (hns ▸ List.mem_singleton_self m)
    exact x.unplaced_unplaced
  rw [← hself] at h
  exact h.read

theorem read_of_mem_units {n : Node} (h : n ∈ (Header.units cs).2) : n.Read :=
  (reading_nodes (solid_skipGap cs) (Header.reading_units cs) n h).1.read_self

/-! ### Declarations of classes -/

theorem Expr.reading_seq_of_none {a b : Expr} (h : a.reading mode cs = none) :
    (seq a b).reading mode cs = none := by
  rw [reading_seq, h, Reading.none_andThen]

theorem reading_choice_of_none {a b : Expr} (h : a.reading mode cs = none) :
    (choice a b).reading mode cs = b.reading mode cs := by
  rw [reading_choice, h, Option.none_or]

theorem not_prefix_append {l x : List Char} (h : ¬ l <+: x ∧ ¬ x <+: l) : ¬ l <+: x ++ cs :=
  fun hl => (List.prefix_or_prefix_of_prefix hl (List.prefix_append x cs)).elim h.1 h.2

theorem reading_objcDirective_interface (cs : List Char) :
    (call .objcDirective).reading .tight ("@interface ".toList ++ cs) = some (' ' :: cs, []) := by
  have hbody : Rule.objcDirective.body = seq (lit "@") (word (oneOf "interface"
      ["protocol", "implementation", "class", "end", "property", "optional", "required"])) := rfl
  have hends : Ends (' ' :: cs) := IsGap.blank.ends (by decide) cs
  have hchars : ∀ c ∈ "interface".toList, isIdentChar c = true := by decide
  have hrun : identRun ("interface".toList ++ ' ' :: cs) = "interface".toList :=
    identRun_append hchars hends
  have hrest : identRest ("interface".toList ++ ' ' :: cs) = ' ' :: cs :=
    identRest_append hchars hends
  have hat : (lit "@").reading .tight ("@interface ".toList ++ cs) =
      some ("interface".toList ++ ' ' :: cs, []) := reading_literal_append ['@']
  rw [reading_call, Rule.reading_tight, hbody, reading_seq, hat, Reading.some_nil_andThen,
    skipBetween, reading_word (by decide), hrun, hrest, if_pos (by decide)]

theorem reading_skippedDeclaration_interface (cs : List Char) :
    (call .skippedDeclaration).reading .spaced ("@interface ".toList ++ cs) = none := by
  let stop : Expr := .choice (lit ";") (.choice (call .objcDirective) (call .directiveLine))
  let skipped : Expr := .choice (call .skippedBlock) (.seq (.notAhead stop) (.char .any))
  have hbody : Rule.skippedDeclaration.body = seq (seq skipped (many skipped)) (opt (lit ";")) :=
    rfl
  have hblock : (call .skippedBlock).reading .tight ("@interface ".toList ++ cs) = none :=
    Rule.reading_of_not_front rfl (not_prefix_append (by decide))
  have hsemi : (lit ";").reading .tight ("@interface ".toList ++ cs) = none :=
    reading_of_not_front rfl (not_prefix_append (by decide))
  have hstop : (stop.reading .tight ("@interface ".toList ++ cs)).isSome = true := by
    rw [reading_choice_of_none hsemi, reading_choice, reading_objcDirective_interface]
    rfl
  have hskipped : skipped.reading .tight ("@interface ".toList ++ cs) = none := by
    rw [reading_choice_of_none hblock, reading_seq, reading_notAhead, if_pos hstop]
    rfl
  rw [reading_call, Rule.reading_token rfl, hbody,
    reading_seq_of_none (reading_seq_of_none hskipped)]
  rfl

/-- The head of a class, and not of a category, is read here up to some text. -/
structure HeadAt (cs : List Char) (ns : List Node) (zs : List Char) : Prop where
  start : "@interface ".toList <+: cs
  category : (seq interfaceHead (lit "(")).reading .spaced cs = none
  head : ∃ c, classHead.reading .spaced cs = some (c, ns) ∧ skipGap c = skipGap zs

variable {ns : List Node}

/-- Behind its head, a class is read like any other. -/
theorem HeadAt.nextUnit (h : HeadAt cs ns zs) : Header.nextUnit cs =
    (classTail.reading .spaced (skipGap zs)).map fun y =>
      (y.1, [.mk .classInterface 0 (.ofList (cs.take (cs.length - y.1.length))) (ns ++ y.2)]) := by
  obtain ⟨c, hhead, hc⟩ := h.head
  obtain ⟨ds, rfl⟩ := h.start
  have hsolid : skipGap ("@interface ".toList ++ ds) = "@interface ".toList ++ ds :=
    (Firm.append ⟨'@', rfl, by decide⟩ ds).solid.skipGap
  have hclass : (call .classInterface).reading .spaced ("@interface ".toList ++ ds) =
      (classTail.reading .spaced (skipGap zs)).map fun y => (y.1, [.mk .classInterface 0
        (.ofList
          (("@interface ".toList ++ ds).take (("@interface ".toList ++ ds).length - y.1.length)))
        (ns ++ y.2)]) := by
    rw [Rule.classInterface_reading, reading_seq, hhead, Reading.some_andThen, skipBetween, hc,
      Reading.named, Option.map_map]
    rfl
  have hcategory : (call .categoryInterface).reading .spaced ("@interface ".toList ++ ds) =
      none := by
    have hbody : Rule.categoryInterface.body =
        seq (seq (seq (seq (seq (seq (seq interfaceHead (lit "("))
      (opt (call .categoryName))) (lit ")")) (opt (enclosed '<' '>' (call .protocolList))))
      (opt (call .instanceVariables))) (call .interfaceDeclarationList)) (lit "@end") := rfl
    rw [reading_call, Rule.reading_eq_none, hbody]
    iterate 6 refine reading_seq_of_none ?_
    exact h.category
  have hmarker : (call .nonnullAuditMarker).reading .spaced ("@interface ".toList ++ ds) =
      none := by
    have hread : Rule.nonnullAuditMarker.reading .spaced ("@interface ".toList ++ ds) = _ :=
      Rule.word_reading rfl rfl (by decide)
    rw [reading_call, hread, if_neg]
    exact (by decide : "" ∉ ["NS_ASSUME_NONNULL_BEGIN", "NS_ASSUME_NONNULL_END"])
  have hother : ∀ {r : Rule} {l : List Char}, r.body.front? = some l →
      (¬ l <+: "@interface ".toList ∧ ¬ "@interface ".toList <+: l) →
        (call r).reading .spaced ("@interface ".toList ++ ds) = none :=
    fun hr hl => Rule.reading_of_not_front hr (not_prefix_append hl)
  rw [Header.nextUnit, hsolid, reading_call, Rule.reading_group rfl, Rule.externalDeclaration_body,
    reading_choice_of_none (hother rfl (by decide)), reading_choice_of_none hmarker,
    reading_choice_of_none (hother rfl (by decide)),
    reading_choice_of_none (hother rfl (by decide)), reading_choice_of_none hcategory,
    reading_choice, hclass, reading_choice_of_none (hother rfl (by decide)),
    reading_choice_of_none (hother rfl (by decide)), reading_skippedDeclaration_interface,
    Option.or_none]

/-- Where one head can stand, another one can. -/
theorem HeadAt.units_of_units {cs' : List Char} {ns' : List Node} (h : HeadAt cs ns zs)
    (h' : HeadAt cs' ns' zs) (hend : skipGap (Header.units cs).1 = []) :
    skipGap (Header.units cs').1 = [] ∧ ∃ t t' ms rest,
      (∀ m ∈ ms, m.rule ∈ classTail.seen.flatMap Rule.leaves) ∧
      (Header.units cs).2 = .mk .classInterface 0 t (ns ++ ms) :: rest ∧
      (Header.units cs').2 = .mk .classInterface 0 t' (ns' ++ ms) :: rest := by
  have hunit := h.nextUnit
  have hunit' := h'.nextUnit
  cases htail : classTail.reading .spaced (skipGap zs) with
  | none =>
    rw [htail, Option.map_none] at hunit
    obtain ⟨ds, rfl⟩ := h.start
    have hsolid : skipGap ("@interface ".toList ++ ds) = "@interface ".toList ++ ds :=
      (Firm.append ⟨'@', rfl, by decide⟩ ds).solid.skipGap
    rw [Header.units_of_nextUnit_eq_none hunit, skipGap_skipGap, hsolid] at hend
    cases hend
  | some y =>
    rw [htail, Option.map_some] at hunit hunit'
    obtain ⟨hrest, hnodes⟩ := Header.units_of_nextUnit hunit
    obtain ⟨hrest', hnodes'⟩ := Header.units_of_nextUnit hunit'
    exact ⟨hrest'.trans (hrest.symm.trans hend), _, _, y.2, _,
      fun m hm => (reading_nodes (solid_skipGap zs) htail m hm).2, hnodes, hnodes'⟩

/-! ### Heads with and without a superclass -/

def classNode (name : List Char) (t : String) (parameters : List Node) : Node :=
  .mk .className 0 t (.token .identifier name :: parameters)

theorem start_interfaceText (name cs : List Char) :
    "@interface ".toList <+: interfaceText name cs :=
  ⟨name ++ ' ' :: cs, rfl⟩

theorem Expr.reading_opt_of_some {a : Expr} {y : List Char × List Node}
    (h : a.reading mode cs = some y) : (opt a).reading mode cs = some y := by
  rw [reading_opt, h, Option.getD_some]

theorem not_begins_of_head?_ne (h : cs.head? ≠ some c) : ¬ [c] <+: cs := by
  rintro ⟨zs, rfl⟩
  exact h rfl

theorem firm_inAngles (ws : List (List Char)) (zs : List Char) : Firm (inAngles ws zs) :=
  ⟨'<', rfl, by decide⟩

theorem headAt_superclass {super : List Char} (hname : IsIdent name) (hsuper : IsIdent super)
    (hws : ∀ w ∈ ws, IsIdent w) (hne : ws ≠ []) (zs : List Char) :
    ∃ t t', HeadAt (interfaceText name (':' :: ' ' :: (super ++ ' ' :: inAngles ws zs)))
      [classNode name t [], .mk .superclassName 0 (.ofList super) [.token .identifier super],
        .mk .protocolList 0 t' (ws.map protocolNode)] zs := by
  have hfirm : Firm (':' :: ' ' :: (super ++ ' ' :: inAngles ws zs)) := ⟨':', rfl, by decide⟩
  have hnone : (call .genericParameterClause).reading .spaced
      (':' :: ' ' :: (super ++ ' ' :: inAngles ws zs)) = none :=
    Rule.reading_of_not_front rfl (not_begins_of_head?_ne (c := '<') (by simp))
  obtain ⟨t, hhead⟩ := reading_interfaceHead hname hfirm
  rw [hnone, Option.getD_none] at hhead
  have hcolon : (lit ":").reading .spaced (':' :: ' ' :: (super ++ ' ' :: inAngles ws zs)) =
      some (' ' :: (super ++ ' ' :: inAngles ws zs), []) := reading_literal_append [':']
  have hpart : superclassPart.reading .spaced (':' :: ' ' :: (super ++ ' ' :: inAngles ws zs)) =
      some (' ' :: inAngles ws zs,
        [.mk .superclassName 0 (.ofList super) [.token .identifier super]]) := by
    have hends : Ends (' ' :: inAngles ws zs) := IsGap.blank.ends (by decide) _
    rw [superclassPart, reading_seq_blank hcolon (hsuper.firm.append _),
      Rule.reading_name rfl rfl hsuper hends]
    rfl
  have hfront := (reading_seq_firm hhead hfirm).trans (congrArg _ (reading_opt_of_some hpart))
  obtain ⟨t', hprotocols⟩ := reading_protocols hws hne zs
  refine ⟨t, t', start_interfaceText _ _, ?_, zs, ?_, rfl⟩
  · have hopen : (lit "(").reading .spaced (':' :: ' ' :: (super ++ ' ' :: inAngles ws zs)) =
        none :=
      reading_of_not_front rfl (not_begins_of_head?_ne (c := '(') (by simp))
    rw [reading_seq_firm hhead hfirm, hopen, Option.map_none]
  · rw [classHead, reading_seq_blank hfront (firm_inAngles ws zs), reading_opt_of_some hprotocols]
    rfl

theorem headAt_clause (hname : IsIdent name) (hws : ∀ w ∈ ws, IsIdent w) (hne : ws ≠ [])
    (hv : ∀ w ∈ ws, isVariance w = false)
    (hzs : (skipGap zs).head? ∉ [some ':', some '(', some '<']) :
    ∃ t ms, HeadAt (interfaceText name (inAngles ws zs)) [classNode name t ms] zs := by
  simp only [List.mem_cons, List.not_mem_nil, or_false, not_or] at hzs
  obtain ⟨hcolon, hopen, hangle⟩ := hzs
  obtain ⟨n, hclause⟩ := reading_clause hws hne hv zs
  obtain ⟨t, hhead⟩ := reading_interfaceHead hname (firm_inAngles ws zs)
  rw [hclause, Option.getD_some] at hhead
  refine ⟨t, [n], start_interfaceText _ _, ?_, skipGap zs, ?_, skipGap_skipGap zs⟩
  · rw [reading_seq, hhead, Reading.some_andThen, skipBetween,
      reading_of_not_front rfl (not_begins_of_head?_ne hopen), Option.map_none]
  · rw [classHead, reading_seq, reading_seq, hhead, Reading.some_andThen, skipBetween,
      reading_opt_of_not_front rfl (not_begins_of_head?_ne hcolon), Option.map_some,
      Reading.some_andThen, skipBetween, skipGap_skipGap,
      reading_opt_of_not_front rfl (not_begins_of_head?_ne hangle)]
    rfl

theorem headAt_variance (hname : IsIdent name) (hws : ∀ w ∈ ws, IsIdent w)
    (hv : ∃ w ∈ ws, isVariance w = true) (zs : List Char) :
    ∃ t t', HeadAt (interfaceText name (inAngles ws zs))
      [classNode name t [], .mk .protocolList 0 t' (ws.map protocolNode)] zs := by
  have hne : ws ≠ [] := fun h => by simp [h] at hv
  have hfirm := firm_inAngles ws zs
  obtain ⟨t, hhead⟩ := reading_interfaceHead hname hfirm
  rw [reading_clause_of_variance hws hv zs, Option.getD_none] at hhead
  have hcolon : (opt superclassPart).reading .spaced (inAngles ws zs) = some (inAngles ws zs, []) :=
    reading_opt_of_not_front rfl (not_begins_of_head?_ne (c := ':') (by simp [inAngles]))
  have hfront := (reading_seq_firm hhead hfirm).trans (congrArg _ hcolon)
  obtain ⟨t', hprotocols⟩ := reading_protocols hws hne zs
  refine ⟨t, t', start_interfaceText _ _, ?_, zs, ?_, rfl⟩
  · have hopen : (lit "(").reading .spaced (inAngles ws zs) = none :=
      reading_of_not_front rfl (not_begins_of_head?_ne (c := '(') (by simp [inAngles]))
    rw [reading_seq_firm hhead hfirm, hopen, Option.map_none]
  · rw [classHead, reading_seq_firm hfront hfirm, reading_opt_of_some hprotocols]
    rfl

end Grammar

end HeaderBridge
