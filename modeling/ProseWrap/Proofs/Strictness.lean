import ProseWrap.Proofs.Deletion
import ProseWrap.Proofs.Mending
import ProseWrap.Proofs.Widths

/-!
# Strict and lenient rules

A strict rule looks at more blocks than a lenient one, exempts no line and
counts addresses as they are. So it should find every line that the lenient
rule finds. It does as long as no line gets wider by putting placeholders for
its addresses.

A link never gets wider by a short address (`measure_shortenLinks_le`). A
placeholder has as many letters as the address has units, up to a limit,
whatever the units count for in the width of a line
(`measure_shortenAddresses`). So a line can get wider only by an address with
characters that have more units than width.
-/

namespace ProseWrap.Lint

/-! ## Addresses -/

/-- What every address begins with. -/
def addressStart : Text := ['h', 't', 't', 'p']

theorem addressStart_of_schemeLength {text : Text} (h : schemeLength text ≠ 0) :
    addressStart.length ≤ schemeLength text ∧ addressStart <+: text := by
  unfold schemeLength at h ⊢
  split
  · rename_i hscheme
    refine ⟨by decide, List.IsPrefix.trans ?_ (List.isPrefixOf_iff_prefix.mp hscheme)⟩
    exact ⟨[':', '/', '/'], rfl⟩
  · split
    · rename_i hscheme
      refine ⟨by decide, List.IsPrefix.trans ?_ (List.isPrefixOf_iff_prefix.mp hscheme)⟩
      exact ⟨['s', ':', '/', '/'], rfl⟩
    · rename_i hplain hsecure
      rw [if_neg hplain, if_neg hsecure] at h
      exact absurd rfl h

/-- An address begins with its scheme and goes on as far as it can. -/
theorem take_addressLength {p : Char → Bool} {text : Text} (h : addressLength p text ≠ 0) :
    addressStart <+: text.take (addressLength p text) ∧
      ∀ c ∈ (text.drop (addressLength p text)).head?, p c = false := by
  unfold addressLength at h ⊢
  dsimp only at h ⊢
  split at h
  · exact absurd rfl h
  · rename_i hne
    rw [if_neg hne]
    obtain ⟨hscheme, -⟩ := not_or.mp hne
    obtain ⟨hle, hstart⟩ := addressStart_of_schemeLength hscheme
    refine ⟨List.prefix_take_iff.mpr ⟨hstart, by omega⟩, fun c hc => ?_⟩
    rw [← List.drop_drop, Text.drop_length_takeWhile] at hc
    have hend := List.head?_dropWhile_not p (text.drop (schemeLength text))
    rw [Option.mem_def.mp hc] at hend
    exact hend

theorem head?_of_addressStart {text : Text} (h : addressStart <+: text) : text.head? ≠ some emojiSelector := by
  obtain ⟨rest, rfl⟩ := h
  show some 'h' ≠ some emojiSelector
  decide

/-- An address is wider than what is put for it in a link. -/
theorem three_le_measure {mode : LengthMode} {text : Text} (h : addressStart <+: text) : 3 ≤ measure mode text := by
  obtain ⟨rest, rfl⟩ := h
  have hle := measureAfter_le_append Unicode.isWide mode false addressStart rest
  have hfour : measure mode addressStart = 4 := by cases mode <;> decide +kernel
  rw [measureAfter_false, measureAfter_false, hfour] at hle
  omega

/-! ## Links -/

theorem Link.length_source (link : Link) : link.source.length = link.length := by
  simp [Link.source, Link.length]
  omega

/-- A link stands at the start of its text as it is written. -/
theorem linkAt?_eq_some {text : Text} {link : Link} (h : linkAt? text = some link) :
    link.source <+: text ∧ addressStart <+: link.address := by
  unfold linkAt? at h
  split at h
  · rename_i rest
    dsimp only at h
    split at h
    · rename_i target htarget
      split at h
      · rename_i haddress
        obtain rfl := (Option.some.inj h).symm
        simp only [Bool.and_eq_true, Bool.not_eq_true', List.isEmpty_eq_false_iff, beq_iff_eq] at haddress
        obtain ⟨hne, hclose⟩ := haddress
        have hlength : addressLength isLinkChar target ≠ 0 := fun hzero => hne (by rw [hzero, List.take_zero])
        obtain ⟨after, hafter⟩ := List.head?_eq_some_iff.mp hclose
        refine ⟨⟨after, ?_⟩, (take_addressLength hlength).1⟩
        have hlabel : rest.takeWhile (fun c => c != '[' && c != ']') ++ ']' :: '(' :: target = rest := by
          rw [← htarget, Text.drop_length_takeWhile]
          exact List.takeWhile_append_dropWhile
        have hsplit := List.prefix_iff_eq_append.mp (List.take_prefix (addressLength isLinkChar target) target)
        rw [hafter] at hsplit
        conv => rhs; rw [← hlabel, ← hsplit]
        simp [Link.source]
      · cases h
    · cases h
  · cases h

theorem Link.measureAfter_source_append {mode : LengthMode} {narrow : Bool} {link : Link}
    (haddress : link.address.head? ≠ some emojiSelector) (rest : Text) :
    measureAfter Unicode.isWide mode narrow (link.source ++ rest) =
      measureAfter Unicode.isWide mode narrow ('[' :: link.label) + measure mode [']', '('] +
        measure mode link.address +
        (measure mode [')'] + measureAfter Unicode.isWide mode (narrowAfter Unicode.isWide false ')') rest) := by
  have hclose : (')' :: rest).head? ≠ some emojiSelector := by
    show some ')' ≠ some emojiSelector
    decide
  have hsource : link.source ++ rest =
      (('[' :: link.label) ++ [']', '('] ++ link.address) ++ (')' :: rest) := by
    simp [Link.source]
  have hrest : measureAfter Unicode.isWide mode false (')' :: rest) =
      measure mode [')'] + measureAfter Unicode.isWide mode (narrowAfter Unicode.isWide false ')') rest := by
    rw [measureAfter_cons, measureAfter_false]
  rw [hsource, measureAfter_append _ hclose, measureAfter_append _ haddress, measureAfter_append _ (by decide), hrest,
    measureAfter_false, measureAfter_false]

/-- A link with a short address is no wider. -/
theorem Link.measure_shortened_le (mode : LengthMode) {link : Link} (h : addressStart <+: link.address) :
    measure mode link.shortened.address ≤ measure mode link.address ∧
      link.shortened.label = link.label ∧ link.shortened.address.head? ≠ some emojiSelector := by
  unfold Link.shortened
  split
  · have hword : measure mode ['u', 'r', 'l'] = 3 := by cases mode <;> decide +kernel
    refine ⟨?_, rfl, (by decide : ['u', 'r', 'l'].head? ≠ some emojiSelector)⟩
    rw [hword]
    exact three_le_measure h
  · exact ⟨Nat.le_refl _, rfl, head?_of_addressStart h⟩

theorem measureAfter_shortenLinksFrom_le (mode : LengthMode) (narrow : Bool) (skip : Nat) (text : Text) :
    measureAfter Unicode.isWide mode narrow (shortenLinksFrom skip text) ≤
      measureAfter Unicode.isWide mode narrow (text.drop skip) := by
  fun_induction shortenLinksFrom skip text generalizing narrow with
  | case1 => simp
  | case2 c rest skip ih => exact ih narrow
  | case3 c rest link hlink ih =>
    obtain ⟨⟨after, hafter⟩, hstart⟩ := linkAt?_eq_some hlink
    obtain ⟨haddress, hlabel, hhead⟩ := link.measure_shortened_le mode hstart
    have hrest : rest.drop (link.length - 1) = after := by
      have hdrop : (c :: rest).drop link.length = after := by rw [← hafter, ← link.length_source, List.drop_left]
      rw [← hdrop]
      rfl
    rw [hrest] at ih
    rw [List.drop_zero, ← hafter, Link.measureAfter_source_append hhead, hlabel,
      Link.measureAfter_source_append (head?_of_addressStart hstart)]
    have hmore := ih (narrowAfter Unicode.isWide false ')')
    omega
  | case4 c rest hlink ih =>
    rw [List.drop_zero, measureAfter_cons, measureAfter_cons mode narrow c rest]
    exact Nat.add_le_add_left (ih _) _

/-- Links with short addresses make no text wider. -/
theorem measure_shortenLinks_le (mode : LengthMode) (text : Text) :
    measure mode (shortenLinks text) ≤ measure mode text := by
  rw [← measureAfter_false, ← measureAfter_false]
  exact measureAfter_shortenLinksFrom_le mode false 0 text

/-- A text with short links has no characters but its own and those of the
short word. -/
theorem mem_of_mem_shortenLinksFrom {skip : Nat} {text : Text} {d : Char} (h : d ∈ shortenLinksFrom skip text) :
    d ∈ text ∨ d ∈ ['u', 'r', 'l'] := by
  fun_induction shortenLinksFrom skip text with
  | case1 => cases h
  | case2 c rest skip ih => exact (ih h).imp_left (List.mem_cons_of_mem c)
  | case3 c rest link hlink ih =>
    rcases List.mem_append.mp h with h | h
    · have hsource : d ∈ link.source ∨ d ∈ ['u', 'r', 'l'] := by
        unfold Link.shortened at h
        split at h
        · simp only [Link.source, List.mem_append] at h ⊢
          rcases h with ((h | h) | h) | h
          · exact .inl (.inl (.inl (.inl h)))
          · exact .inl (.inl (.inl (.inr h)))
          · exact .inr h
          · exact .inl (.inr h)
        · exact .inl h
      exact hsource.imp_left fun hmem => (linkAt?_eq_some hlink).1.subset hmem
    · exact (ih h).imp_left (List.mem_cons_of_mem c)
  | case4 c rest hlink ih =>
    rcases List.mem_cons.mp h with rfl | h
    · exact .inl List.mem_cons_self
    · exact (ih h).imp_left (List.mem_cons_of_mem c)

/-! ## Placeholders -/

/-- How many letters the placeholder of an address has. -/
def placeholderSize (address : Text) : Nat := min placeholderLength (Text.unitCount address)

/-- The addresses for which placeholders are put in a text, from its character
number `skip` on. The character before the text is `before`. -/
def addressesFrom (before : Option Char) (skip : Nat) : Text → List Text
  | [] => []
  | c :: rest =>
    match skip with
    | skip + 1 => addressesFrom (some c) skip rest
    | 0 =>
      let length := if isGuard before then 0 else addressLength isAddressChar (c :: rest)
      if length = 0 then addressesFrom (some c) 0 rest
      else (c :: rest).take length :: addressesFrom (some c) (length - 1) rest

/-- The addresses for which placeholders are put in a text. -/
def addresses (text : Text) : List Text := addressesFrom none 0 text

theorem mem_of_mem_addressesFrom {before : Option Char} {skip : Nat} {text address : Text} {d : Char}
    (h : address ∈ addressesFrom before skip text) (hd : d ∈ address) : d ∈ text := by
  fun_induction addressesFrom before skip text with
  | case1 => cases h
  | case2 before c rest skip ih => exact List.mem_cons_of_mem c (ih h)
  | case3 before c rest length hzero ih => exact List.mem_cons_of_mem c (ih h)
  | case4 before c rest length hlength ih =>
    rcases List.mem_cons.mp h with rfl | h
    · exact List.mem_of_mem_take hd
    · exact List.mem_cons_of_mem c (ih h)

theorem placeholderSize_pos {address : Text} (h : address ≠ []) : 0 < placeholderSize address := by
  cases address with
  | nil => exact absurd rfl h
  | cons c rest =>
    have hunit : 0 < Text.unitWidth c := by unfold Text.unitWidth; split <;> omega
    simp only [placeholderSize, placeholderLength, Text.unitCount]
    omega

/-- With placeholders a text gains the widths of the placeholders and loses
those of the addresses. -/
theorem measureAfter_shortenAddressesFrom (mode : LengthMode) (narrow : Bool) (before : Option Char) (skip : Nat)
    (text : Text) :
    measureAfter Unicode.isWide mode narrow (shortenAddressesFrom before skip text) +
        Text.total (measure mode) (addressesFrom before skip text) =
      measureAfter Unicode.isWide mode narrow (text.drop skip) +
        Text.total placeholderSize (addressesFrom before skip text) := by
  fun_induction shortenAddressesFrom before skip text generalizing narrow with
  | case1 => simp [addressesFrom]
  | case2 before c rest skip ih => exact ih narrow
  | case3 before c rest length hzero ih =>
    have hnone : addressesFrom before 0 (c :: rest) = addressesFrom (some c) 0 rest := by
      rw [addressesFrom, if_pos hzero]
    rw [hnone, List.drop_zero, measureAfter_cons, measureAfter_cons mode narrow c rest]
    have hmore := ih (narrowAfter Unicode.isWide narrow c)
    rw [List.drop_zero] at hmore
    omega
  | case4 before c rest length hlength size ih =>
    have hsome : addressesFrom before 0 (c :: rest) =
        (c :: rest).take length :: addressesFrom (some c) (length - 1) rest := by
      rw [addressesFrom, if_neg hlength]
    have haddress : addressLength isAddressChar (c :: rest) ≠ 0 ∧ length = addressLength isAddressChar (c :: rest) := by
      by_cases hguard : isGuard before
      · exact absurd (if_pos hguard) hlength
      · have heq : length = addressLength isAddressChar (c :: rest) := if_neg hguard
        exact ⟨heq ▸ hlength, heq⟩
    obtain ⟨hstart, hend⟩ := take_addressLength haddress.1
    rw [← haddress.2] at hstart hend
    have hpos : 0 < size := placeholderSize_pos fun hnil => by
      rw [hnil] at hstart
      exact absurd (List.prefix_nil.mp hstart) (by decide)
    have hnext : rest.drop (length - 1) = (c :: rest).drop length := by
      obtain ⟨more, hmore⟩ : ∃ more, length = more + 1 := ⟨length - 1, by omega⟩
      rw [hmore, List.drop_succ_cons, Nat.add_sub_cancel]
    have hhead : ((c :: rest).drop length).head? ≠ some emojiSelector := fun hselector =>
      absurd (hend _ hselector) (by decide +kernel)
    have hsplit : measureAfter Unicode.isWide mode narrow (c :: rest) =
        measure mode ((c :: rest).take length) + measure mode ((c :: rest).drop length) := by
      rw [← measureAfter_false mode ((c :: rest).take length), ← measureAfter_false mode ((c :: rest).drop length),
        ← measureAfter_of_head? (head?_of_addressStart hstart), ← measureAfter_append _ hhead,
        List.take_append_drop]
    have hsize : placeholderSize ((c :: rest).take length) = size := rfl
    have hmore := ih false
    rw [measureAfter_false, measureAfter_false, hnext] at hmore
    rw [hsome, List.drop_zero, measureAfter_replicate_append hpos, hsplit, Text.total_cons, Text.total_cons,
      hsize]
    omega

/-- With placeholders a text gains the widths of the placeholders and loses
those of the addresses. -/
theorem measure_shortenAddresses (mode : LengthMode) (text : Text) :
    measure mode (shortenAddresses text) + Text.total (measure mode) (addresses text) =
      measure mode text + Text.total placeholderSize (addresses text) := by
  rw [← measureAfter_false, ← measureAfter_false mode text]
  exact measureAfter_shortenAddressesFrom mode false none 0 text

/-- A text gets no wider if none of its addresses is narrower than its
placeholder. -/
theorem measure_shorten_le {mode : LengthMode} {text : Text}
    (h : ∀ address ∈ addresses (shortenLinks text), placeholderSize address ≤ measure mode address) :
    measure mode (shorten text) ≤ measure mode text := by
  have hlinks := measure_shortenLinks_le mode text
  have hsum := measure_shortenAddresses mode (shortenLinks text)
  have hle := Text.total_le_total h
  show measure mode (shortenAddresses (shortenLinks text)) ≤ _
  omega

/-- No address is narrower than its placeholder if each character of the text
is as wide as it has units. -/
theorem placeholderSize_le {mode : LengthMode} {text : Text}
    (h : ∀ c ∈ text, Text.unitWidth c ≤ measure mode [c]) :
    ∀ address ∈ addresses (shortenLinks text), placeholderSize address ≤ measure mode address := by
  intro address haddress
  have hword : ∀ c ∈ ['u', 'r', 'l'], Text.unitWidth c ≤ measure mode [c] := by
    intro c hc
    simp only [List.mem_cons, List.not_mem_nil, or_false] at hc
    rcases hc with rfl | rfl | rfl <;> cases mode <;> decide +kernel
  have hchars : ∀ c ∈ address, Text.unitWidth c ≤ measure mode [c] := fun c hc =>
    (mem_of_mem_shortenLinksFrom (mem_of_mem_addressesFrom haddress hc)).elim (h c) (hword c)
  have hle := unitCount_le_measureAfter hchars false
  rw [measureAfter_false] at hle
  exact (Nat.min_le_right _ _).trans hle

/-! ## Findings -/

variable {rule : Rule} {index : Nat} {text : Text} {finding : Finding}

/-- A width is too great for a limit. So is one that cannot be measured. -/
def TooWide (limit : Nat) (width : Option Nat) : Prop := ∀ n ∈ width, limit < n

theorem any_le_eq_false {limit : Nat} {width : Option Nat} : width.any (· ≤ limit) = false ↔ TooWide limit width := by
  cases width <;> simp [TooWide]

theorem Rule.finding?_eq_some :
    rule.finding? index text = some finding ↔
      TooWide rule.limit (rule.width (Text.trimEnd text)) ∧
        (rule.strict = true ∨ resistsWrapping (Text.trimEnd text) = false) ∧
        finding = ⟨index + 1, rule.width (Text.trimEnd text), rule.limit⟩ := by
  unfold Rule.finding?
  dsimp only
  split
  · rename_i hfits
    simp [← any_le_eq_false, hfits]
  · rename_i hwide
    have hwide := any_le_eq_false.mp (Bool.of_not_eq_true hwide)
    split
    · rename_i hexempt
      simp only [Bool.and_eq_true, Bool.not_eq_true'] at hexempt
      simp [hexempt]
    · rename_i hexempt
      simp only [Bool.and_eq_true, Bool.not_eq_true', not_and, Bool.not_eq_true] at hexempt
      have hstrict : rule.strict = true ∨ resistsWrapping (Text.trimEnd text) = false := by
        cases hs : rule.strict with
        | true => exact .inl rfl
        | false => exact .inr (hexempt hs)
      simp only [Option.some.injEq, hwide, hstrict, true_and]
      exact eq_comm

/-- What stands on the lines of a block stands on lines of the document. -/
theorem getElem?_of_mem_sources {lines : List Line} {block : Block} {line : Line}
    (h : (line, index) ∈ (block.sources lines).zipIdx block.firstLine) : lines[index]? = some line := by
  obtain ⟨hle, hget⟩ := List.mk_mem_zipIdx_iff_le_and_getElem?_sub.mp h
  rw [Block.sources, List.getElem?_take] at hget
  split at hget
  · rwa [List.getElem?_drop, Nat.add_sub_cancel' hle] at hget
  · cases hget

theorem Rule.mem_findings {document : Document} :
    finding ∈ rule.findings document ↔
      ∃ block ∈ document.blocks, rule.checks block.kind = true ∧
        ∃ line index, (line, index) ∈ (block.sources document.lines).zipIdx block.firstLine ∧
          rule.finding? index line.text = some finding := by
  simp [Rule.findings, List.mem_flatMap, List.mem_filterMap, and_assoc]

/-- A strict rule looks at every block that a lenient one looks at. -/
theorem Rule.checks_strict {kind : BlockKind} (h : { rule with strict := false }.checks kind = true) :
    { rule with strict := true }.checks kind = true := by
  cases kind <;> first | exact h | rfl

theorem Rule.width_of_strict (h : rule.strict = true) (text : Text) :
    rule.width text = measure? rule.options.lengthMode text := by
  simp [Rule.width, h]

/-- A line that counts as too wide is too wide if none of its addresses is
narrower than its placeholder. Without a length mode every line is that has any
text. -/
theorem Rule.tooWide_of_width (rule : Rule) {limit : Nat} (h : TooWide limit (rule.width text))
    (hplaceholders : ∀ mode, rule.options.lengthMode = some mode →
      ∀ address ∈ addresses (shortenLinks text), placeholderSize address ≤ measure mode address) :
    TooWide limit (measure? rule.options.lengthMode text) := by
  cases hmode : rule.options.lengthMode with
  | none =>
    cases text with
    | nil => exact absurd (h 0 (by simp [Rule.width, Text.hasPart, measure?])) (Nat.not_lt_zero _)
    | cons c rest => simp [TooWide, measure?]
  | some mode =>
    have hwidth : ∃ width, rule.width text = some width ∧ width ≤ measure mode text := by
      unfold Rule.width
      rw [hmode, measure?_some, measure?_some]
      split
      · exact ⟨_, rfl, Nat.le_refl _⟩
      · exact ⟨_, rfl, measure_shorten_le (hplaceholders mode hmode)⟩
    obtain ⟨width, hsome, hle⟩ := hwidth
    rw [measure?_some]
    rintro _ ⟨⟩
    exact (h width hsome).trans_le hle

/-- On a line that the lenient rule finds, the strict rule finds something just
if the line itself is too wide. -/
theorem Rule.exists_strict_finding_iff {document : Document}
    (h : finding ∈ { rule with strict := false }.findings document) :
    ∃ line, document.lines[finding.line - 1]? = some line ∧
      TooWide rule.limit ({ rule with strict := false }.width (Text.trimEnd line.text)) ∧
      ((∃ other ∈ { rule with strict := true }.findings document, other.line = finding.line) ↔
        TooWide rule.limit (measure? rule.options.lengthMode (Text.trimEnd line.text))) := by
  obtain ⟨block, hb, hchecks, line, index, hentry, hfinding⟩ := Rule.mem_findings.mp h
  obtain ⟨hwide, -, rfl⟩ := Rule.finding?_eq_some.mp hfinding
  have hline := getElem?_of_mem_sources hentry
  refine ⟨line, hline, hwide, fun ⟨other, hother, hsame⟩ => ?_, fun hlt => ?_⟩
  · obtain ⟨_, -, -, line', index', hentry', hfinding'⟩ := Rule.mem_findings.mp hother
    obtain ⟨hwide', -, rfl⟩ := Rule.finding?_eq_some.mp hfinding'
    obtain rfl : index' = index := Nat.succ.inj hsame
    obtain rfl : line' = line :=
      Option.some.inj ((getElem?_of_mem_sources hentry').symm.trans hline)
    rwa [Rule.width_of_strict rfl] at hwide'
  · refine ⟨⟨index + 1, measure? rule.options.lengthMode (Text.trimEnd line.text), rule.limit⟩, ?_, rfl⟩
    refine Rule.mem_findings.mpr ⟨block, hb, Rule.checks_strict hchecks, line, index, hentry, ?_⟩
    refine Rule.finding?_eq_some.mpr ⟨?_, .inl rfl, ?_⟩ <;> rw [Rule.width_of_strict rfl]
    · exact hlt
    · rfl

/-- Configurations that differ in how strict they are give rules that differ in
the same. -/
theorem RuleConfig.resolve_strict {config : RuleConfig} (h : config.resolve.result = .ok rule) (on : Bool) :
    { config with strict := .given on }.resolve.result = .ok { rule with strict := on } := by
  obtain ⟨options, hoptions, hresult⟩ := Report.result_bind_eq_ok.mp h
  obtain rfl := Except.ok.inj hresult
  exact Report.result_bind hoptions _

theorem mem_of_mem_lines {line : Line} (h : line ∈ Line.split text) {c : Char} (hc : c ∈ Text.trimEnd line.text) :
    c ∈ text := by
  have htext : c ∈ line.text := (List.rdropWhile_prefix _ _).subset hc
  have hline : c ∈ line.source := List.mem_append_left _ htext
  rw [← Line.join_split text]
  exact List.mem_flatMap.mpr ⟨line, h, hline⟩

/-- Of the lines that a lenient rule finds, a strict one that is otherwise the
same finds just those that are themselves too wide. On each of the others an
address is narrower than its placeholder. So the strict rule finds all of them
if widths are counted in bytes, or if each character of the text is at least as
wide as it has units, and also if there is no length mode to count in. -/
theorem strict_finds_lenient_line_iff (config : RuleConfig) (rule : Rule) (text : Text)
    (hrule : config.resolve.result = .ok rule) :
    let document := Document.ofText text
    let mode := rule.options.lengthMode
    ∃ lenient strict,
      ({ config with strict := .given false }.resolve.bind fun rule => rule.check text).result = .ok lenient ∧
      ({ config with strict := .given true }.resolve.bind fun rule => rule.check text).result = .ok strict ∧
      (∀ finding ∈ lenient, ∃ line, document.lines[finding.line - 1]? = some line ∧
        ((∃ other ∈ strict, other.line = finding.line) ↔
          TooWide rule.limit (measure? mode (Text.trimEnd line.text))) ∧
        (¬TooWide rule.limit (measure? mode (Text.trimEnd line.text)) → ∃ known, mode = some known ∧
          ∃ address ∈ addresses (shortenLinks (Text.trimEnd line.text)),
            measure known address < placeholderSize address)) ∧
      ((∀ known, mode = some known → known = .bytes ∨ ∀ c ∈ text, Text.unitWidth c ≤ measure known [c]) →
        ∀ finding ∈ lenient, ∃ other ∈ strict, other.line = finding.line) := by
  intro document mode
  have hcheck (on : Bool) :
      ({ config with strict := .given on }.resolve.bind fun rule => rule.check text).result =
        .ok (if rule.limit = 0 then [] else { rule with strict := on }.findings document) :=
    (Report.result_bind (RuleConfig.resolve_strict hrule on) _).trans (Rule.check_result _ text)
  refine ⟨_, _, hcheck false, hcheck true, ?_⟩
  split
  · simp
  · have hline (finding : Finding) (hf : finding ∈ { rule with strict := false }.findings document) :=
      Rule.exists_strict_finding_iff hf
    refine ⟨fun finding hf => ?_, fun hchars finding hf => ?_⟩
    · obtain ⟨line, hget, hwide, hiff⟩ := hline finding hf
      refine ⟨line, hget, hiff, fun hfits => ?_⟩
      by_contra hnone
      exact hfits (Rule.tooWide_of_width { rule with strict := false } hwide fun known hknown address haddress =>
        Nat.not_lt.mp fun hlt => hnone ⟨known, hknown, address, haddress, hlt⟩)
    · obtain ⟨line, hget, hwide, hiff⟩ := hline finding hf
      refine hiff.mpr (Rule.tooWide_of_width { rule with strict := false } hwide fun known hknown =>
        placeholderSize_le fun c hc => ?_)
      rcases hchars known hknown with rfl | hchars
      · exact Text.unitWidth_le_utf8Size c
      · exact hchars c (mem_of_mem_lines (List.mem_of_getElem? hget) hc)

/-- A line with a link and an address, both long, is found by both rules. -/
theorem strict_finds_lenient_line_narrow :
    let config : RuleConfig := { lineLength := .given (.number (.ofNat 20)) }
    let rule : Rule := ⟨true, false, true, true, false, false, some .paragraphs,
      { Options.default with lineLength := .ofNat 20, abbreviations := some [] }⟩
    let text : Text := "[a](http://b.example/c) http://d.example/e\n".toList
    config.resolve.result = .ok rule ∧ (∀ c ∈ text, Text.unitWidth c ≤ measure .chars [c]) ∧
      ∃ lenient strict,
        ({ config with strict := .given false }.resolve.bind fun rule => rule.check text).result = .ok lenient ∧
        ({ config with strict := .given true }.resolve.bind fun rule => rule.check text).result = .ok strict ∧
        lenient = [⟨1, some 24, 20⟩] ∧ ∀ finding ∈ lenient, ∃ other ∈ strict, other.line = finding.line := by
  intro config rule text
  have hrule : config.resolve.result = .ok rule := by decide +kernel
  have hall : (text.all fun c => Text.unitWidth c ≤ measure .chars [c]) = true := by decide +kernel
  have hunits : ∀ c ∈ text, Text.unitWidth c ≤ measure .chars [c] := fun c hc =>
    of_decide_eq_true (List.all_eq_true.mp hall c hc)
  obtain ⟨lenient, strict, hlenient, hstrict, -, hsubset⟩ := strict_finds_lenient_line_iff config rule text hrule
  have hfound : ({ config with strict := .given false }.resolve.bind fun rule => rule.check text).result =
      .ok [⟨1, some 24, 20⟩] := by
    decide +kernel
  exact ⟨hrule, hunits, lenient, strict, hlenient, hstrict, Except.ok.inj (hlenient.symm.trans hfound),
    hsubset fun known hknown => .inr (Option.some.inj hknown ▸ hunits)⟩

/-- An emoji is one character and two units. With the placeholder for its
address the line no longer fits, so the lenient rule finds it and the strict
one does not. -/
theorem placeholder_outgrows_address :
    let config : RuleConfig := { lineLength := .given (.number (.ofNat 10)) }
    let text : Text := "a http://😀".toList
    ∃ lenient strict,
      ({ config with strict := .given false }.resolve.bind fun rule => rule.check text).result = .ok lenient ∧
      ({ config with strict := .given true }.resolve.bind fun rule => rule.check text).result = .ok strict ∧
      ∃ finding ∈ lenient, ∀ other ∈ strict, other.line ≠ finding.line := by
  refine ⟨[⟨1, some 11, 10⟩], [], ?_, ?_, ?_⟩
  · decide +kernel
  · decide +kernel
  · decide

end ProseWrap.Lint
