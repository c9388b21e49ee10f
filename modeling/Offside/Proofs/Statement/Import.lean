/-
# Imports and literals

The pattern of imports looks for the word `from` in plain text, and may find it in a
literal. Where it stands in front of the literal or behind it, the import is the same,
but for the literal.

The blanks behind `import` count as names only where nothing else could be one, and then
the word behind them is `from`. So whether names begin with a brace or a star is decided
by what stands behind the blanks.
-/

import Offside.Proofs.Statement.Nesting
import Offside.Proofs.Text.Differ

namespace Offside

variable {quote : Char} {literal literal' text text' : List Char}

namespace Import

/-- In front of `after`, the `from` that ends the names of an import stands in the literal. -/
def isWithin (literal after : List Char) (cut : List Char × List Char) : Bool :=
  decide (after.length < cut.2.length ∧ cut.2.length < literal.length + after.length)

/-- Two cuts of an import, with the literal in the same one of their parts. -/
def DifferIn (literal literal' : List Char) (cut cut' : List Char × List Char) : Prop :=
  (cut'.1 = cut.1 ∧ Differ literal literal' cut.2 cut'.2) ∨
    (Differ literal literal' cut.1 cut'.1 ∧ cut'.2 = cut.2)

theorem behindFrom?_append_cons (hpair : LiteralPair quote literal literal') (front : List Char)
    {back : List Char} (hfeed : '\n' ∉ back) :
    behindFrom? (front ++ quote :: back) = (behindFrom? front).map (· ++ quote :: back) := by
  have hword : quote ∉ ['f', 'r', 'o', 'm'] := hpair.notMem (by decide)
  have hquote : '\n' ≠ quote := (hpair.ne (by decide)).symm
  have hoff : Text.isWord quote = false := by rcases hpair.isQuote with rfl | rfl <;> decide
  rw [behindFrom?, behindFrom?, Text.startsBlank_append_cons hpair.isBlank]
  split
  · rfl
  · rw [Text.trimStart_append_cons hpair.isBlank, Text.dropLead?_append_cons hword]
    cases Text.dropLead? ['f', 'r', 'o', 'm'] (Text.trimStart front) with
    | none => rfl
    | some rest =>
        have hstarts : Text.startsOffWord (rest ++ quote :: back) = Text.startsOffWord rest := by
          cases rest with
          | nil => simp [Text.startsOffWord, hoff]
          | cons c rest => rfl
        have hcontains : (rest ++ quote :: back).contains '\n' = rest.contains '\n' := by
          rw [Bool.eq_iff_iff]
          simp [hquote, hfeed]
        simp only [Option.map_some, Option.bind_eq_bind, Option.bind_some, hstarts, hcontains]
        split <;> rfl

theorem cutNames?_cons {c : Char} (hc : '\n' ≠ c) (rest : List Char) :
    cutNames? (c :: rest) =
      match behindFrom? rest with
      | some behind => some ([c], behind)
      | none => (cutNames? rest).map fun cut => (c :: cut.1, cut.2) :=
  if_neg (Ne.symm hc)

/-- The first `from` stands in front of a quote, or it is the first one behind it. -/
theorem cutNames?_append_cons (hpair : LiteralPair quote literal literal') {front back : List Char}
    (hfeed : '\n' ∉ front) (hfeed' : '\n' ∉ back) :
    cutNames? (front ++ quote :: back) =
      match cutNames? front with
      | some cut => some (cut.1, cut.2 ++ quote :: back)
      | none => (cutNames? (quote :: back)).map fun cut => (front ++ cut.1, cut.2) := by
  induction front with
  | nil => simp [cutNames?]
  | cons c front ih =>
      rw [List.mem_cons, not_or] at hfeed
      rw [List.cons_append, cutNames?_cons hfeed.1, cutNames?_cons hfeed.1,
        behindFrom?_append_cons hpair front hfeed', ih hfeed.2]
      cases behindFrom? front with
      | some behind => rfl
      | none =>
          cases cutNames? front with
          | some cut => rfl
          | none =>
              simp only [Option.map_none, Option.map_map]
              rfl

theorem exists_of_cutNames?_cons {c : Char} {rest : List Char} {cut : List Char × List Char}
    (hcut : cutNames? (c :: rest) = some cut) : ∃ more, cut.1 = c :: more := by
  rw [cutNames?, Option.ite_none_left_eq_some] at hcut
  obtain ⟨-, hcut⟩ := hcut
  split at hcut
  · obtain rfl := Option.some_inj.mp hcut
    exact ⟨[], rfl⟩
  · obtain ⟨inner, -, rfl⟩ := Option.map_eq_some_iff.mp hcut
    exact ⟨inner.1, rfl⟩

theorem length_of_cutNames? {text : List Char} {cut : List Char × List Char}
    (hcut : cutNames? text = some cut) : cut.2.length < text.length := by
  obtain ⟨names, behind⟩ := cut
  obtain ⟨blanks, -, rfl⟩ := cutNames?_append hcut
  simp only [List.length_append, List.length_cons, List.length_nil]
  omega

/-- Where the first `from` does not stand in the literal, the literal makes no difference. -/
theorem cutNames?_differ (hpair : LiteralPair quote literal literal') {front after : List Char}
    (hfeed : '\n' ∉ front) (hfeed' : '\n' ∉ after)
    (hwithin : ∀ cut ∈ cutNames? (front ++ literal ++ after), isWithin literal after cut = false)
    (hwithin' : ∀ cut ∈ cutNames? (front ++ literal' ++ after),
      isWithin literal' after cut = false) :
    Option.Rel (DifferIn literal literal') (cutNames? (front ++ literal ++ after))
      (cutNames? (front ++ literal' ++ after)) := by
  have hone : ∀ {text : List Char}, IsLiteral quote text →
      (∀ cut ∈ cutNames? (front ++ text ++ after), isWithin text after cut = false) →
        cutNames? (front ++ text ++ after) =
          match cutNames? front with
          | some cut => some (cut.1, cut.2 ++ text ++ after)
          | none => (cutNames? (quote :: after)).map fun cut =>
              (front ++ text ++ cut.1.tail, cut.2) := by
    rintro text ⟨⟨body, rfl⟩, hbody⟩ hnone
    have hinner : '\n' ∉ body ++ quote :: after := by
      simp only [List.mem_append, List.mem_cons, not_or] at hbody ⊢
      exact ⟨hbody.1.2, hbody.1.1, hfeed'⟩
    have hfront : '\n' ∉ quote :: body := fun hmem => hbody (List.mem_append_left _ hmem)
    have hsplit : front ++ (quote :: body ++ [quote]) ++ after =
        front ++ quote :: (body ++ quote :: after) := by simp
    rw [hsplit, cutNames?_append_cons hpair hfeed hinner] at hnone ⊢
    cases hcut : cutNames? front with
    | some cut => simp
    | none =>
        rw [hcut, ← List.cons_append, cutNames?_append_cons hpair hfront hfeed'] at hnone
        simp only
        rw [← List.cons_append, cutNames?_append_cons hpair hfront hfeed']
        cases hliteral : cutNames? (quote :: body) with
        | some cut =>
            have hshorter := length_of_cutNames? hliteral
            have hfalse := hnone (front ++ cut.1, cut.2 ++ quote :: after) (by rw [hliteral]; rfl)
            simp only [isWithin, List.length_append, List.length_cons, List.length_nil,
              decide_eq_false_iff_not] at hfalse hshorter
            omega
        | none =>
            simp only [Option.map_map]
            refine Option.map_congr fun cut hmem => ?_
            obtain ⟨more, hmore⟩ := exists_of_cutNames?_cons (Option.mem_def.mp hmem)
            simp [hmore]
  rw [hone hpair.first hwithin, hone hpair.second hwithin']
  cases cutNames? front with
  | some cut => exact .some (.inl ⟨rfl, cut.2, after, rfl, rfl⟩)
  | none =>
      cases cutNames? (quote :: after) with
      | none => exact .none
      | some cut => exact .some (.inr ⟨⟨front, cut.1.tail, rfl, rfl⟩, rfl⟩)

/-- So it is with the blanks behind `import`. -/
theorem cutBehindBlanks?_differ (hpair : LiteralPair quote literal literal')
    {front after : List Char} (hfeed : '\n' ∉ front) (hfeed' : '\n' ∉ after)
    (hwithin : ∀ cut ∈ cutBehindBlanks? (front ++ literal ++ after),
      isWithin literal after cut = false)
    (hwithin' : ∀ cut ∈ cutBehindBlanks? (front ++ literal' ++ after),
      isWithin literal' after cut = false) :
    Option.Rel (DifferIn literal literal') (cutBehindBlanks? (front ++ literal ++ after))
      (cutBehindBlanks? (front ++ literal' ++ after)) := by
  induction front with
  | nil =>
      have hnone : ∀ {text : List Char}, IsLiteral quote text →
          cutBehindBlanks? ([] ++ text ++ after) = none := by
        rintro text ⟨⟨body, rfl⟩, -⟩
        simp [cutBehindBlanks?, hpair.isBlank]
      rw [hnone hpair.first, hnone hpair.second]
      exact .none
  | cons c front ih =>
      rw [List.mem_cons, not_or] at hfeed
      cases hblank : Text.isBlank c with
      | false =>
          simp only [List.cons_append, cutBehindBlanks?, hblank, Bool.false_eq_true, if_false]
          exact .none
      | true =>
          simp only [List.cons_append, cutBehindBlanks?, hblank, if_true] at hwithin hwithin' ⊢
          have hinner := ih hfeed.2
            (fun cut hmem => hwithin cut (by rw [Option.mem_def.mp hmem]; rfl))
            (fun cut hmem => hwithin' cut (by rw [Option.mem_def.mp hmem]; rfl))
          generalize cutBehindBlanks? (front ++ literal ++ after) = found at hinner hwithin ⊢
          generalize cutBehindBlanks? (front ++ literal' ++ after) = found' at hinner hwithin' ⊢
          cases hinner with
          | some hcut => exact .some hcut
          | none => exact cutNames?_differ hpair hfeed.2 hfeed' hwithin hwithin'

/-- What the names of an import begin with: what stands behind the blanks, unless that is
the first letter of `from`. -/
theorem head?_of_cutBehindBlanks? {text : List Char} {cut : List Char × List Char}
    (hcut : cutBehindBlanks? text = some cut) :
    cut.1.head? = (Text.trimStart text).head? ∨
      (∃ c, cut.1.head? = some c ∧ Text.isBlank c = true) ∧
        (Text.trimStart text).head? = some 'f' := by
  induction text with
  | nil => cases hcut
  | cons c rest ih =>
      rw [cutBehindBlanks?, Option.ite_none_right_eq_some] at hcut
      obtain ⟨hblank, hcut⟩ := hcut
      have htrim : Text.trimStart (c :: rest) = Text.trimStart rest := by
        simp [Text.trimStart, hblank]
      rw [htrim]
      split at hcut
      · rename_i found hfound
        exact ih (hfound.trans hcut)
      · rename_i hnone
        cases rest with
        | nil => cases hcut
        | cons d rest =>
            obtain ⟨more, hmore⟩ := exists_of_cutNames?_cons hcut
            cases hd : Text.isBlank d with
            | false => exact .inl (by simp [Text.trimStart, hd, hmore])
            | true =>
                -- Without the blank there is no `from`, so it must come right behind it.
                refine .inr ⟨⟨d, by rw [hmore]; rfl, hd⟩, ?_⟩
                have hrest : cutNames? rest = none := by
                  rw [cutBehindBlanks?, if_pos hd] at hnone
                  split at hnone
                  · cases hnone
                  · exact hnone
                rw [cutNames?, hrest, Option.ite_none_left_eq_some] at hcut
                obtain ⟨-, hcut⟩ := hcut
                split at hcut
                · rename_i behind hfrom
                  obtain ⟨blanks, hblanks, rfl⟩ := behindFrom?_append hfrom
                  have hdrop : Text.trimStart (d :: (blanks ++ (['f', 'r', 'o', 'm'] ++ behind))) =
                      Text.trimStart (blanks ++ (['f', 'r', 'o', 'm'] ++ behind)) := by
                    simp [Text.trimStart, hd]
                  rw [hdrop, Text.trimStart, List.dropWhile_append_of_pos hblanks]
                  rfl
                · cases hcut

end Import

/-! ## Lines -/

namespace Line

/-- An import of names, if what stands behind the word `import` does not begin with a brace
or a star. -/
theorem namedImport?_eq {line : Line} {rest : List Char}
    (hword : Text.dropLead? ['i', 'm', 'p', 'o', 'r', 't'] line.content = some rest) :
    line.namedImport? =
      if (Text.trimStart rest).head? = some '\x7b' ∨ (Text.trimStart rest).head? = some '*' then
        none
      else Import.cutBehindBlanks? rest := by
  rw [namedImport?, hword, Option.bind_some]
  cases hcut : Import.cutBehindBlanks? rest with
  | none => simp
  | some cut =>
      rw [Option.filter_some]
      rcases Import.head?_of_cutBehindBlanks? hcut with hhead | ⟨⟨c, hhead, hblank⟩, hf⟩
      · rw [hhead]
        by_cases hbrace : (Text.trimStart rest).head? = some '\x7b'
        · simp [hbrace]
        · by_cases hstar : (Text.trimStart rest).head? = some '*' <;> simp [hbrace, hstar]
      · have hbrace : c ≠ '\x7b' := by
          rintro rfl
          cases hblank
        have hstar : c ≠ '*' := by
          rintro rfl
          cases hblank
        simp [hhead, hf, hbrace, hstar]

end Line

/-- In the line that `before`, the literal and `after` make up, the `from` of an import of
names stands in the literal. -/
def Import.endsIn (before literal after : List Char) : Bool :=
  (Line.ofChars (before ++ literal ++ after)).namedImport?.any (Import.isWithin literal after)

namespace Line

variable {before after : List Char}

/-- The blanks in front of a line end in front of its literal. -/
theorem ofChars_literal (hpair : LiteralPair quote literal literal') {text : List Char}
    (hliteral : IsLiteral quote text) :
    ofChars (before ++ text ++ after) =
      ⟨before.takeWhile Text.isBlank, before.dropWhile Text.isBlank ++ text ++ after⟩ := by
  obtain ⟨rest, htext, hrest⟩ := hliteral.append_left before after
  rw [htext, ofChars, takeWhile_append_cons hpair.isBlank, dropWhile_append_cons hpair.isBlank,
    ← hrest, List.append_assoc]

theorem namedImport?_differ (hpair : LiteralPair quote literal literal') (hfeed : '\n' ∉ before)
    (hfeed' : '\n' ∉ after) (himport : Import.endsIn before literal after = false)
    (himport' : Import.endsIn before literal' after = false) :
    Option.Rel (Import.DifferIn literal literal')
      (ofChars (before ++ literal ++ after)).namedImport?
      (ofChars (before ++ literal' ++ after)).namedImport? := by
  have hword : quote ∉ ['i', 'm', 'p', 'o', 'r', 't'] := hpair.notMem (by decide)
  unfold Import.endsIn at himport himport'
  rw [ofChars_literal hpair hpair.first] at himport ⊢
  rw [ofChars_literal hpair hpair.second] at himport' ⊢
  have hread : ∀ {text : List Char}, IsLiteral quote text →
      Text.dropLead? ['i', 'm', 'p', 'o', 'r', 't']
          (before.dropWhile Text.isBlank ++ text ++ after) =
        (Text.dropLead? ['i', 'm', 'p', 'o', 'r', 't'] (before.dropWhile Text.isBlank)).map
          (· ++ text ++ after) := by
    intro text hliteral
    obtain ⟨rest, htext, hrest⟩ := hliteral.append_left (before.dropWhile Text.isBlank) after
    simp only [htext, Text.dropLead?_append_cons hword, List.append_assoc, hrest]
  cases hfront : Text.dropLead? ['i', 'm', 'p', 'o', 'r', 't'] (before.dropWhile Text.isBlank) with
  | none =>
      have hfirst := hread hpair.first
      have hsecond := hread hpair.second
      rw [hfront] at hfirst hsecond
      simp only [namedImport?, hfirst, hsecond]
      exact .none
  | some left =>
      have hfirst := hread hpair.first
      have hsecond := hread hpair.second
      rw [hfront] at hfirst hsecond
      have hdiffer : Differ literal literal' (left ++ literal ++ after)
          (left ++ literal' ++ after) := ⟨left, after, rfl, rfl⟩
      have hfeed'' : '\n' ∉ left := fun hmem => by
        rw [Text.dropLead?_eq_some_iff] at hfront
        exact hfeed (List.dropWhile_subset _ (hfront ▸ List.mem_append_right _ hmem))
      rw [namedImport?_eq hfirst] at himport ⊢
      rw [namedImport?_eq hsecond, (hdiffer.trimStart hpair).head? hpair] at himport' ⊢
      split_ifs at himport himport' ⊢
      · exact .none
      · exact Import.cutBehindBlanks?_differ hpair hfeed'' hfeed'
          ((Option.any_eq_false _ _).mp himport) ((Option.any_eq_false _ _).mp himport')

theorem withNamedImport?_differ (hpair : LiteralPair quote literal literal')
    (hfeed : '\n' ∉ before) (hfeed' : '\n' ∉ after)
    (himport : Import.endsIn before literal after = false)
    (himport' : Import.endsIn before literal' after = false) :
    Option.Rel (Differ literal literal')
      (ofChars (before ++ literal ++ after)).withNamedImport?
      (ofChars (before ++ literal' ++ after)).withNamedImport? := by
  have hcuts := namedImport?_differ hpair hfeed hfeed' himport himport'
  rw [withNamedImport?_eq, withNamedImport?_eq]
  have hindentation : (ofChars (before ++ literal' ++ after)).indentation =
      (ofChars (before ++ literal ++ after)).indentation := by
    rw [ofChars_literal hpair hpair.first, ofChars_literal hpair hpair.second]
  rw [hindentation]
  generalize (ofChars (before ++ literal ++ after)).namedImport? = found at hcuts ⊢
  generalize (ofChars (before ++ literal' ++ after)).namedImport? = found' at hcuts ⊢
  generalize (ofChars (before ++ literal ++ after)).indentation = indentation
  cases hcuts with
  | none => exact .none
  | @some cut cut' hcut =>
      refine .some ?_
      dsimp only
      rcases hcut with ⟨hnames, hbehind⟩ | ⟨hnames, hbehind⟩
      · rw [hnames]
        have hwhole := hbehind.append (indentation ++
          ['i', 'm', 'p', 'o', 'r', 't', ' ', '\x7b'] ++ cut.1 ++
            ['\x7d', ' ', 'f', 'r', 'o', 'm']) []
        simpa using hwhole
      · rw [hbehind]
        have hwhole := hnames.append (indentation ++ ['i', 'm', 'p', 'o', 'r', 't', ' ', '\x7b'])
          (['\x7d', ' ', 'f', 'r', 'o', 'm'] ++ cut.2)
        simpa using hwhole

end Line

end Offside
