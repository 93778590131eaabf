import FeaturePress.Proofs.StepGroup.ReferenceLines
import FeaturePress.Proofs.Text.Quoted
import FeaturePress.StepGroup.Bindings

/-! The lines of the file of bindings. Apart from comments these are an attribute and a function for every
group, in the order of the names, whatever descriptions and steps hold; the attribute binds the function to
the reference line of the group. Functions of two groups are named alike if the names of the groups differ in
capitals alone.
-/

namespace FeaturePress.Bindings

-----------------------------------------------------------------------------------------
-- Reading a source text
-----------------------------------------------------------------------------------------

/-- Whether a line holds no code: it is blank, or a comment. -/
def isIdle (line : Text) : Bool :=
  Text.isBlankText line || Text.startsWith (Text.trimStart line) ['/', '/']

/-- The lines of a source text that hold code. -/
def codeLines (source : Text) : List Text :=
  (Text.splitLines source).filter (!isIdle ·)

/-- What stands between an opening and a closing that a line begins and ends with. -/
def framed? (opening closing line : Text) : Option Text :=
  (Text.after? opening line).bind (Text.before? closing)

/-- What the line of an attribute begins with that binds a function to steps. -/
def attributeOpening : Text := "#[given(".toList

/-- What the line of an attribute ends with. -/
def attributeClosing : Text := ")]".toList

/-- What the line of a function begins with. -/
def functionOpening : Text := "pub fn ".toList

/-- What the line of a function without arguments and effect ends with. -/
def functionClosing : Text := "() \x7b\x7d".toList

/-- The arguments of the attributes in a source text that bind functions to steps. -/
def attributes (source : Text) : List Text :=
  (codeLines source).filterMap (framed? attributeOpening attributeClosing)

/-- The names of the functions that a source text defines. -/
def functions (source : Text) : List Text :=
  (codeLines source).filterMap (framed? functionOpening functionClosing)

/-- A pattern with every doubled brace written once. -/
def singleBraces : Text → Text
  | '\x7b' :: '\x7b' :: rest => '\x7b' :: singleBraces rest
  | '\x7d' :: '\x7d' :: rest => '\x7d' :: singleBraces rest
  | c :: rest => c :: singleBraces rest
  | [] => []

-----------------------------------------------------------------------------------------
-- The lines of the file
-----------------------------------------------------------------------------------------

/-- The line that makes the attribute known. -/
def useLine : Text := "use rstest_bdd_macros::given;".toList

/-- The line that binds the function behind it to the steps that refer to a group. -/
def attributeLine (group : StepGroup) : Text :=
  attributeOpening ++ Text.Quoted.encode (pattern group.name group.description) ++ attributeClosing

/-- The line that defines the function of a group. -/
def functionLine (group : StepGroup) : Text :=
  functionOpening ++ functionName group.name ++ functionClosing

/-- What a comment line begins with that documents the function behind it. -/
def slashes : Text := "///".toList

/-- The comment lines that list steps, behind the slashes. -/
def stepLines (steps : List Text) : List Text :=
  if steps.isEmpty then []
  else
    [[], " ```gherkin".toList] ++ steps.map (fun step => ' ' :: Text.trim step)
      ++ [" ```".toList]

/-- The comment lines of a group, behind the slashes. -/
def comments (group : StepGroup) : List Text :=
  (" Step Group `".toList ++ group.name ++ "`: ".toList ++ group.description)
    :: stepLines group.steps

/-- The lines of a group. -/
def groupLines (group : StepGroup) : List Text :=
  [] :: (comments group).map (slashes ++ ·) ++ [attributeLine group, functionLine group]

/-- The lines of the file of a catalogue. -/
def fileLines (catalog : Catalog) : List Text :=
  [header, [], useLine] ++ catalog.groups.flatMap groupLines

theorem stepComment_eq (steps : List Text)
    : stepComment steps = ((stepLines steps).map (slashes ++ ·)).flatMap (· ++ ['\n']) := by
  unfold stepComment stepLines
  split
  · rfl
  · simp only [line, List.map_append, List.map_cons, List.map_nil, List.map_map, List.flatMap_append,
      List.flatMap_cons, List.flatMap_nil, List.flatMap_map, List.flatten_cons, List.flatten_nil,
      List.append_nil]
    rfl

theorem binding_eq (group : StepGroup)
    : binding group.name group.entry = (groupLines group).flatMap (· ++ ['\n']) := by
  have opening : "/// Step Group `".toList = slashes ++ " Step Group `".toList := by decide
  unfold binding groupLines comments attributeLine functionLine StepGroup.entry
  rw [opening]
  simp only [stepComment_eq, line, List.map_cons, List.flatMap_append, List.flatMap_cons,
    List.flatMap_nil, List.flatten_cons, List.flatten_nil, List.append_nil, List.append_assoc]
  rfl

/-- The file is its lines, each with a line feed. -/
theorem file_eq (catalog : Catalog) : file catalog = (fileLines catalog).flatMap (· ++ ['\n']) := by
  have each : (fun group : StepGroup => binding group.name group.entry)
      = fun group => (groupLines group).flatMap (· ++ ['\n']) := funext binding_eq
  have bindings : (catalog.toList.flatMap fun entry => binding entry.1 entry.2)
      = catalog.groups.flatMap fun group => binding group.name group.entry := by
    rw [Catalog.groups, List.flatMap_map]
    rfl
  have shape : file catalog = line [header] ++ line [] ++ line [useLine]
      ++ catalog.toList.flatMap fun entry => binding entry.1 entry.2 := rfl
  rw [shape, bindings, each, fileLines, List.flatMap_append, List.flatMap_assoc]
  simp only [line, List.flatMap_cons, List.flatMap_nil, List.flatten_cons,
    List.flatten_nil, List.append_nil, List.append_assoc, List.nil_append]

-----------------------------------------------------------------------------------------
-- The code of the file
-----------------------------------------------------------------------------------------

variable {groups : List StepGroup} {group : StepGroup} {catalog : Catalog}

theorem isIdle_slashes_append (rest : Text) : isIdle (slashes ++ rest) = true := by
  have solid : Text.isBlank '/' = false := rfl
  have begins : Text.startsWith ('/' :: '/' :: '/' :: rest) ['/', '/'] = true :=
    Text.startsWith_iff.mpr ⟨'/' :: rest, rfl⟩
  have shape : slashes ++ rest = '/' :: '/' :: '/' :: rest := rfl
  rw [isIdle, shape, Text.trimStart_cons _ solid, begins, Bool.or_true]

theorem isIdle_cons {c : Char} (solid : Text.isBlank c = false) (code : c ≠ '/') (rest : Text)
    : isIdle (c :: rest) = false := by
  have begins : Text.startsWith (c :: rest) ['/', '/'] = false := by
    rw [Bool.eq_false_iff, Ne, Text.startsWith_iff]
    rintro ⟨tail, shape⟩
    exact code (List.cons.inj shape).1.symm
  rw [isIdle, Text.trimStart_cons _ solid, begins, Bool.or_false, Text.isBlankText, List.all_cons, solid,
    Bool.false_and]

theorem isIdle_attributeLine (group : StepGroup) : isIdle (attributeLine group) = false :=
  isIdle_cons rfl (by decide) _

theorem isIdle_functionLine (group : StepGroup) : isIdle (functionLine group) = false :=
  isIdle_cons rfl (by decide) _

/-- Of the lines of a group, the attribute and the function are code. -/
theorem filter_groupLines (group : StepGroup)
    : (groupLines group).filter (!isIdle ·) = [attributeLine group, functionLine group] := by
  -- whatever a description or a step holds stands behind slashes
  have idle : ((comments group).map (slashes ++ ·)).filter (!isIdle ·) = [] := by
    rw [List.filter_eq_nil_iff]
    intro line member
    obtain ⟨rest, -, rfl⟩ := List.mem_map.mp member
    simp [isIdle_slashes_append]
  have blank : isIdle [] = true := rfl
  rw [groupLines, List.cons_append, List.filter_cons_of_neg (by simp [blank]), List.filter_append, idle]
  simp [isIdle_attributeLine, isIdle_functionLine]

theorem filter_fileLines (catalog : Catalog)
    : (fileLines catalog).filter (!isIdle ·)
      = useLine :: catalog.groups.flatMap fun group => [attributeLine group, functionLine group] := by
  have top : [header, [], useLine].filter (!isIdle ·) = [useLine] := by decide
  rw [fileLines, List.filter_append, top, List.filter_flatMap]
  simp only [filter_groupLines, List.singleton_append]

-----------------------------------------------------------------------------------------
-- Every line is one line
-----------------------------------------------------------------------------------------

/-- Small letters are no line feed. -/
theorem eq_lineFeed_of_toLower {c : Char} (same : c.toLower = '\n') : c = '\n' := by
  unfold Char.toLower at same
  split at same
  · next capital =>
      have code := congrArg (fun d => d.val.toNat) same
      have high := UInt32.le_iff_toNat_le.mp capital.2
      simp [UInt32.toNat_add] at code high
      omega
  · exact same

theorem unbroken_functionName {name : Text} (plain : '\n' ∉ name) : '\n' ∉ functionName name := by
  refine List.not_mem_append (by decide) fun broken => ?_
  obtain ⟨c, member, lower⟩ := List.mem_map.mp broken
  obtain rfl := eq_lineFeed_of_toLower lower
  exact plain (StepGroup.baseName_subset name member)

theorem unbroken_attributeLine (group : StepGroup) : '\n' ∉ attributeLine group :=
  List.not_mem_append (List.not_mem_append (by decide) (Text.Quoted.unbroken_encode _)) (by decide)

theorem unbroken_functionLine (plain : '\n' ∉ group.name) : '\n' ∉ functionLine group :=
  List.not_mem_append (List.not_mem_append (by decide) (unbroken_functionName plain)) (by decide)

theorem unbroken_stepLines {steps : List Text} (plain : ∀ step ∈ steps, '\n' ∉ step)
    {line : Text} (member : line ∈ stepLines steps)
    : '\n' ∉ line := by
  unfold stepLines at member
  split at member
  · cases member
  · simp only [List.mem_append, List.mem_cons, List.mem_map, List.not_mem_nil, or_false] at member
    rcases member with ((rfl | rfl) | ⟨step, among, rfl⟩) | rfl
    · exact List.not_mem_nil
    · decide
    · intro broken
      rcases List.mem_cons.mp broken with same | inside
      · cases same
      · exact plain step among (Text.trim_subset step inside)
    · decide

theorem unbroken_comments (declared : group.IsDeclared) {line : Text} (member : line ∈ comments group)
    : '\n' ∉ line := by
  rcases List.mem_cons.mp member with rfl | listed
  · have named : '\n' ∉ " Step Group `".toList ++ group.name :=
      List.not_mem_append (by decide) declared.unbroken_name
    exact List.not_mem_append (List.not_mem_append named (by decide)) declared.unbroken_description
  · exact unbroken_stepLines (fun step => declared.unbroken) listed

theorem unbroken_groupLines (declared : group.IsDeclared) {line : Text} (member : line ∈ groupLines group)
    : '\n' ∉ line := by
  simp only [groupLines, List.cons_append, List.mem_cons, List.mem_append, List.mem_map,
    List.not_mem_nil, or_false] at member
  rcases member with rfl | ⟨rest, among, rfl⟩ | rfl | rfl
  · exact List.not_mem_nil
  · exact List.not_mem_append (by decide) (unbroken_comments declared among)
  · exact unbroken_attributeLine group
  · exact unbroken_functionLine declared.unbroken_name

/-- The lines that are written are the lines that are read. -/
theorem splitLines_file (declared : ∀ group ∈ catalog.groups, group.IsDeclared)
    : Text.splitLines (file catalog) = fileLines catalog ++ [[]] := by
  rw [file_eq]
  refine Text.splitLines_flatMap_concat fun line member => ?_
  rcases List.mem_append.mp member with top | below
  · have plain : ∀ line ∈ [header, [], useLine], '\n' ∉ line := by decide
    exact plain line top
  · obtain ⟨group, among, inGroup⟩ := List.mem_flatMap.mp below
    exact unbroken_groupLines (declared group among) inGroup

/-- Apart from comments and blank lines, the file has an attribute and a function for each group. -/
theorem codeLines_file (declared : ∀ group ∈ catalog.groups, group.IsDeclared)
    : codeLines (file catalog)
      = useLine :: catalog.groups.flatMap fun group => [attributeLine group, functionLine group] := by
  have last : [([] : Text)].filter (!isIdle ·) = [] := rfl
  rw [codeLines, splitLines_file declared, List.filter_append, filter_fileLines, last, List.append_nil]

-----------------------------------------------------------------------------------------
-- What the code defines and binds
-----------------------------------------------------------------------------------------

theorem framed?_append (opening body closing : Text)
    : framed? opening closing (opening ++ body ++ closing) = some body := by
  have behind : Text.after? opening (opening ++ body ++ closing) = some (body ++ closing) :=
    Text.after?_eq_some_iff.mpr (List.append_assoc ..).symm
  rw [framed?, behind, Option.bind_some]
  exact List.isSuffixOf?_eq_some_iff_append_eq.mpr rfl

theorem framed?_of_not_isPrefix {opening closing line : Text} (other : ¬ opening <+: line)
    : framed? opening closing line = none := by
  rw [framed?, Text.after?_eq_none_iff.mpr other, Option.bind_none]

/-- A rule that reads one of the two lines of a group, and not the line at the top, reads one part for each
group.
-/
theorem filterMap_codeLines {read : Text → Option Text} {part : StepGroup → Text}
    (declared : ∀ group ∈ catalog.groups, group.IsDeclared) (top : read useLine = none)
    (one : ∀ group, [attributeLine group, functionLine group].filterMap read = [part group])
    : (codeLines (file catalog)).filterMap read = catalog.groups.map part := by
  rw [codeLines_file declared, List.filterMap_cons_none top, List.filterMap_flatMap, List.map_eq_flatMap]
  simp only [one]

/-- The file has one attribute for each group, in the order of the names. -/
theorem attributes_file (declared : ∀ group ∈ catalog.groups, group.IsDeclared)
    : attributes (file catalog)
      = catalog.groups.map fun group =>
          Text.Quoted.encode (pattern group.name group.description) := by
  refine filterMap_codeLines declared (by decide) fun group => ?_
  have attributed : framed? attributeOpening attributeClosing (attributeLine group)
      = some (Text.Quoted.encode (pattern group.name group.description)) := framed?_append ..
  have defined : framed? attributeOpening attributeClosing (functionLine group) = none :=
    framed?_of_not_isPrefix fun ⟨tail, shape⟩ => absurd (List.cons.inj shape).1 (by decide)
  rw [List.filterMap_cons_some attributed, List.filterMap_cons_none defined, List.filterMap_nil]

/-- The file defines one function for each group. -/
theorem functions_file (declared : ∀ group ∈ catalog.groups, group.IsDeclared)
    : functions (file catalog) = catalog.groups.map fun group => functionName group.name := by
  refine filterMap_codeLines declared (by decide) fun group => ?_
  have attributed : framed? functionOpening functionClosing (attributeLine group) = none :=
    framed?_of_not_isPrefix fun ⟨tail, shape⟩ => absurd (List.cons.inj shape).1 (by decide)
  have defined : framed? functionOpening functionClosing (functionLine group)
      = some (functionName group.name) := framed?_append ..
  rw [List.filterMap_cons_none attributed, List.filterMap_cons_some defined, List.filterMap_nil]

-----------------------------------------------------------------------------------------
-- The names of functions
-----------------------------------------------------------------------------------------

theorem isDeclared_of_mem_groups (declared : ∀ group ∈ groups, group.IsDeclared)
    : ∀ group ∈ (Catalog.ofGroups groups).groups, group.IsDeclared := fun _ member =>
  declared _ (List.mem_reverse.mp (List.mem_of_find?_eq_some (Catalog.mem_groups_ofGroups.mp member)))

/-- Functions are named alike when the names of their groups are, written in small letters. -/
theorem functionName_eq_iff {other : StepGroup} (declared : group.IsDeclared)
    (declaredToo : other.IsDeclared)
    : functionName group.name = functionName other.name
      ↔ Text.lowerAscii group.name = Text.lowerAscii other.name := by
  obtain ⟨base, -, -, named⟩ := declared.named
  obtain ⟨otherBase, -, -, otherNamed⟩ := declaredToo.named
  have lowered (base : Text) : Text.lowerAscii (base ++ StepGroup.nameSuffix)
      = Text.lowerAscii base ++ Text.lowerAscii StepGroup.nameSuffix := List.map_append
  unfold functionName
  rw [List.append_right_inj, named, otherNamed, StepGroup.baseName_append_nameSuffix,
    StepGroup.baseName_append_nameSuffix, lowered, lowered, List.append_left_inj]

/-- The functions of the file are named after its groups, and no two alike exactly when no two groups have
names that differ in capitals alone.
-/
theorem functions_nodup_iff (declared : ∀ group ∈ groups, group.IsDeclared)
    : functions (file (Catalog.ofGroups groups)) = (Catalog.ofGroups groups).keys.map functionName
      ∧ ((functions (file (Catalog.ofGroups groups))).Nodup
        ↔ ∀ group ∈ groups, ∀ other ∈ groups,
            Text.lowerAscii group.name = Text.lowerAscii other.name → group.name = other.name) := by
  have named : functions (file (Catalog.ofGroups groups))
      = (Catalog.ofGroups groups).keys.map functionName := by
    rw [functions_file (isDeclared_of_mem_groups declared), ← Catalog.map_name_groups, List.map_map]
    rfl
  refine ⟨named, ?_⟩
  rw [named, List.nodup_map_iff_inj_on (SortedMap.nodup_keys _)]
  simp only [Catalog.mem_keys_ofGroups]
  constructor
  · intro once group member other among same
    exact once _ ⟨group, member, rfl⟩ _ ⟨other, among, rfl⟩
      ((functionName_eq_iff (declared group member) (declared other among)).mpr same)
  · rintro apart _ ⟨group, member, rfl⟩ _ ⟨other, among, rfl⟩ same
    exact apart group member other among
      ((functionName_eq_iff (declared group member) (declared other among)).mp same)

/-- A document with groups whose names differ in a capital alone. -/
def loginDocument : Text :=
  ("@StepGroup\n@StepGroup:Login\nScenario: Log in as guest\n"
    ++ "@StepGroup:login\nScenario: Log in\n").toList

/-- The groups of the document. -/
def loginTwice : List StepGroup :=
  [⟨"Login.sg".toList, "Log in as guest".toList, []⟩, ⟨"login.sg".toList, "Log in".toList, []⟩]

/-- The catalogue has both groups, and the file defines one function twice. -/
theorem login_defined_twice
    : (∀ group ∈ loginTwice, group.IsDeclared)
      ∧ (Catalog.ofGroups loginTwice).keys = ["Login.sg".toList, "login.sg".toList]
      ∧ functions (file (Catalog.ofGroups loginTwice))
        = ["step_group_login".toList, "step_group_login".toList] :=
  ⟨fun _ member => ⟨loginDocument, [], loginTwice, by decide +kernel, member⟩, by decide +kernel,
    by decide +kernel⟩

/-- A document whose groups hold quotes, backslashes, braces, dashes and what looks like code. -/
def oddDocument : Text :=
  ("@StepGroup\n@StepGroup:pay_2\nScenario: - -\"now\\\"- \x7b\x7bas\x7d user\x00-\n"
    ++ "  * say )]\n#[given(\"x\")]\n  * pub fn main() \x7b\x7d\n"
    ++ "@StepGroup:Pay.sg\nExample:\n").toList

/-- The groups of the document. -/
def oddGroups : List StepGroup :=
  [⟨"pay_2.sg".toList, "- -\"now\\\"- \x7b\x7bas\x7d user\x00-".toList,
      ["  * say )]".toList, "  * pub fn main() \x7b\x7d".toList]⟩,
    ⟨"Pay.sg".toList, [], []⟩]

theorem declared_oddGroups : ∀ group ∈ oddGroups, group.IsDeclared := fun _ member =>
  ⟨oddDocument, [], oddGroups, by decide +kernel, member⟩

/-- Names that differ in more than capitals have functions of their own. -/
theorem functions_nodup_iff_odd
    : (∀ group ∈ oddGroups, group.IsDeclared)
      ∧ (functions (file (Catalog.ofGroups oddGroups))).Nodup :=
  ⟨declared_oddGroups, (functions_nodup_iff declared_oddGroups).2.mpr (by decide +kernel)⟩

-----------------------------------------------------------------------------------------
-- What the functions are bound to
-----------------------------------------------------------------------------------------

/-- What a step begins with that refers to a group. -/
def stepLead : Text := "Step Group: -".toList

/-- The step that refers to a group. -/
def step (group : StepGroup) : Text :=
  stepLead ++ group.name ++ Reference.between ++ group.description ++ ['-']

theorem doubleBraces_append (first second : Text)
    : doubleBraces (first ++ second) = doubleBraces first ++ doubleBraces second := by
  simp only [doubleBraces, Text.replaceChar, List.flatMap_append]

theorem singleBraces_doubleBraces (text : Text) : singleBraces (doubleBraces text) = text := by
  induction text with
  | nil => rfl
  | cons c rest ih =>
      have shape : doubleBraces (c :: rest) = doubleBraces [c] ++ doubleBraces rest :=
        doubleBraces_append [c] rest
      rw [shape]
      -- a doubled brace is read as a pair, and another character never begins one
      by_cases opening : c = '\x7b'
      · subst opening
        exact congrArg _ ih
      · by_cases closing : c = '\x7d'
        · subst closing
          exact congrArg _ ih
        · have same : doubleBraces [c] = [c] := by
            simp [doubleBraces, Text.replaceChar, opening, closing]
          rw [same]
          simp [singleBraces, opening, closing, ih]

theorem pattern_eq (group : StepGroup)
    : pattern group.name group.description = doubleBraces (step group) := by
  have atLead : doubleBraces stepLead = stepLead := by decide
  have atBetween : doubleBraces Reference.between = Reference.between := by decide
  have atEnd : doubleBraces ['-'] = ['-'] := by decide
  simp only [step, doubleBraces_append, atLead, atBetween, atEnd]
  rfl

/-- The argument of an attribute, read back, is the step that refers to the group. -/
theorem decode_encode_pattern (group : StepGroup)
    : (Text.Quoted.decode (Text.Quoted.encode (pattern group.name group.description))).map singleBraces
      = some (step group) := by
  rw [Text.Quoted.decode_encode, Option.map_some, pattern_eq, singleBraces_doubleBraces]

theorem star_step (group : StepGroup)
    : '*' :: ' ' :: step group = Reference.toLine ⟨group.name, group.description⟩ [' '] := by
  simp only [step, Reference.toLine, List.append_assoc]
  rfl

/-- Behind a star, the step that refers to a group is read as the reference to it. -/
theorem ofLine?_star_step (declared : group.IsDeclared)
    : Reference.ofLine? ('*' :: ' ' :: step group) = some ⟨group.name, group.description⟩ := by
  rw [star_step]
  exact (Reference.writes_toLine declared.fullName?_name (List.forall_mem_singleton.mpr rfl) _).ofLine?_eq

theorem refers_star_step (declared : ∀ group ∈ groups, group.IsDeclared)
    (member : group ∈ (Catalog.ofGroups groups).groups)
    : Reference.Refers (Catalog.ofGroups groups) ('*' :: ' ' :: step group) group.entry := by
  have isDeclared := isDeclared_of_mem_groups declared group member
  refine ⟨⟨group.name, group.description⟩, ?_, ?_⟩
  · rw [star_step, Reference.trim_toLine, ← star_step]
    exact ofLine?_star_step isDeclared
  · rw [Catalog.lookup?_ofGroups declared, isDeclared.fullName?_name, Option.bind_some]
    exact Catalog.mem_groups_iff.mp member

/-- The code in the file of the bindings of declared groups is an attribute and a function for the last
group of each name, in the order of the names, whatever descriptions and steps hold. The attribute binds the
function to the step that refers to the group: read as it is quoted and without doubled braces, it stands
behind the star of a line that refers to the entry of the group by its name and its description.
-/
theorem file_binds_references (declared : ∀ group ∈ groups, group.IsDeclared)
    : (Catalog.ofGroups groups).groups.Pairwise (fun a b => compare a.name b.name = .lt)
      ∧ (∀ group, group ∈ (Catalog.ofGroups groups).groups
          ↔ StepGroup.last? group.name groups = some group)
      ∧ codeLines (file (Catalog.ofGroups groups))
        = useLine :: (Catalog.ofGroups groups).groups.flatMap
            (fun group => [attributeLine group, functionLine group])
      ∧ (attributes (file (Catalog.ofGroups groups))).map
          (fun argument => (Text.Quoted.decode argument).map singleBraces)
        = (Catalog.ofGroups groups).groups.map (fun group => some (step group))
      ∧ ∀ group ∈ (Catalog.ofGroups groups).groups,
          Reference.ofLine? ('*' :: ' ' :: step group) = some ⟨group.name, group.description⟩
            ∧ Reference.Refers (Catalog.ofGroups groups) ('*' :: ' ' :: step group) group.entry := by
  have known := isDeclared_of_mem_groups declared
  refine ⟨Catalog.pairwise_groups _, fun _ => Catalog.mem_groups_ofGroups, codeLines_file known, ?_, ?_⟩
  · rw [attributes_file known, List.map_map]
    exact List.map_congr_left fun group _ => decode_encode_pattern group
  · exact fun group member =>
      ⟨ofLine?_star_step (known group member), refers_star_step declared member⟩

/-- A description with quotes, braces and dashes comes back from the attribute and from the line. -/
theorem file_binds_references_odd
    : (∀ group ∈ oddGroups, group.IsDeclared)
      ∧ (codeLines (file (Catalog.ofGroups oddGroups))).length = 5
      ∧ Reference.Refers (Catalog.ofGroups oddGroups)
          "* Step Group: -pay_2.sg- -- -\"now\\\"- \x7b\x7bas\x7d user\x00--".toList
          oddGroups[0].entry := by
  obtain ⟨-, among, lines, -, refers⟩ := file_binds_references declared_oddGroups
  have groups : (Catalog.ofGroups oddGroups).groups = oddGroups.reverse := by decide +kernel
  refine ⟨declared_oddGroups, by rw [lines, groups]; rfl,
    (refers oddGroups[0] ((among _).mpr (by decide +kernel))).2⟩

end FeaturePress.Bindings
