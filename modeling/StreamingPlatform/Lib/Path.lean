import StreamingPlatform.Lib.Bytes

namespace Path

open ByteString

/-!
# POSIX paths

A path is a byte string; its components are what stands between the slashes.  `walk` takes
a directory, as the list of names on the way from the root, along components: empty ones
and `.` stay, `..` goes up, and the parent of the root is the root.  `append` is the `/` of
`std::filesystem::path`.  Links are not looked at.
-/

/-- The byte `/`. -/
def slash : UInt8 := 47

/-! ### Components -/

/-- One more byte: a slash ends the component that is being read. -/
def splitStep (parts : List Bytes × Bytes) (byte : UInt8) : List Bytes × Bytes :=
  if byte = slash then (parts.1 ++ [parts.2], []) else (parts.1, parts.2 ++ [byte])

/-- The components before the last slash, and what stands after it. -/
def split (path : Bytes) : List Bytes × Bytes := path.foldl splitStep ([], [])

/-- All components. -/
def components (path : Bytes) : List Bytes := (split path).1 ++ [(split path).2]

/-- Reading on, the components so far stay in front. -/
theorem foldl_splitStep (path : Bytes) (done : List Bytes) (current : Bytes) :
    path.foldl splitStep (done, current)
      = (done ++ (path.foldl splitStep ([], current)).1,
          (path.foldl splitStep ([], current)).2) := by
  induction path generalizing done current with
  | nil => rw [List.foldl_nil, List.foldl_nil, List.append_nil]
  | cons byte path ih =>
    rw [List.foldl_cons, List.foldl_cons]
    by_cases hbyte : byte = slash
    · have hstep : ∀ d, splitStep (d, current) byte = (d ++ [current], []) := fun d => if_pos hbyte
      rw [hstep, hstep, ih (done ++ [current]) [], ih ([] ++ [current]) [], List.nil_append,
        List.append_assoc]
    · have hstep : ∀ d, splitStep (d, current) byte = (d, current ++ [byte]) :=
        fun d => if_neg hbyte
      rw [hstep, hstep]
      exact ih done _

/-- A slash starts a new component. -/
theorem components_append_slash (path rest : Bytes) :
    components (path ++ slash :: rest) = components path ++ components rest := by
  have hsplit : split (path ++ slash :: rest)
      = (components path ++ (split rest).1, (split rest).2) := by
    unfold split
    rw [List.foldl_append, List.foldl_cons, splitStep, if_pos rfl]
    exact foldl_splitStep rest _ []
  rw [components, hsplit, List.append_assoc]
  rfl

/-- Anything else belongs to the last component. -/
theorem split_append {path rest : Bytes} (h : slash ∉ rest) :
    split (path ++ rest) = ((split path).1, (split path).2 ++ rest) := by
  unfold split
  rw [List.foldl_append]
  generalize path.foldl splitStep ([], []) = parts
  induction rest generalizing parts with
  | nil => rw [List.foldl_nil, List.append_nil]
  | cons byte rest ih =>
    obtain ⟨hbyte, hrest⟩ := not_or.mp (List.mem_cons.not.mp h)
    rw [List.foldl_cons, splitStep, if_neg (Ne.symm hbyte), ih hrest, List.append_assoc]
    rfl

/-! ### Directories -/

/-- One component further. -/
def step (directory : List Bytes) (component : Bytes) : List Bytes :=
  if component = [] ∨ component = ofString "." then directory
  else if component = ofString ".." then directory.dropLast
  else directory ++ [component]

/-- Along all components. -/
def walk (directory : List Bytes) (path : List Bytes) : List Bytes := path.foldl step directory

/-- A component that is neither empty nor made of dots is a name. -/
theorem step_of_mem {component : Bytes} {byte : UInt8} (hmem : byte ∈ component) (hbyte : byte ≠ 46)
    (directory : List Bytes) : step directory component = directory ++ [component] := by
  have hdots : ∀ {dots : Bytes}, (∀ b ∈ dots, b = 46) → component ≠ dots := by
    rintro dots hall rfl
    exact hbyte (hall byte hmem)
  have hone : ∀ b ∈ ofString ".", b = 46 := fun b hb => List.mem_singleton.mp hb
  have htwo : ∀ b ∈ ofString "..", b = 46 := by
    show ∀ b ∈ ([46, 46] : Bytes), b = 46
    simp
  unfold step
  rw [if_neg, if_neg (hdots htwo)]
  exact not_or.mpr ⟨hdots (by simp), hdots hone⟩

theorem walk_append (directory : List Bytes) (path path' : List Bytes) :
    walk directory (path ++ path') = walk (walk directory path) path' := List.foldl_append

/-- `is_absolute`. -/
def isAbsolute (path : Bytes) : Bool := path.head? = some slash

/-- The directory that a path leads to from the working directory. -/
def resolve (cwd : List Bytes) (path : Bytes) : List Bytes :=
  walk (if isAbsolute path then [] else cwd) (components path)

/-- `operator/`: an absolute operand replaces the path, and a slash is put in between
    unless the path is empty or ends with one. -/
def append (path other : Bytes) : Bytes :=
  if isAbsolute other then other
  else if path = [] ∨ path.getLast? = some slash then path ++ other
  else path ++ slash :: other

theorem isAbsolute_append {path : Bytes} (h : path ≠ []) (rest : Bytes) :
    isAbsolute (path ++ rest) = isAbsolute path := by
  unfold isAbsolute
  rw [List.head?_append_of_ne_nil _ h]

/-- **A relative operand** is walked from where the path leads. -/
theorem resolve_append (cwd : List Bytes) (path : Bytes) {other : Bytes}
    (h : isAbsolute other = false) :
    resolve cwd (append path other) = walk (resolve cwd path) (components other) := by
  have hempty : ∀ directory, walk directory (components []) = directory := by
    intro directory
    simp [components, split, walk, step]
  unfold append
  rw [h, if_neg (by decide)]
  split
  · next hend =>
    rcases List.eq_nil_or_concat path with rfl | ⟨front, last, rfl⟩
    · rw [List.nil_append, resolve, h, if_neg (by decide), resolve, hempty]
      rfl
    · -- the path ends with a slash, behind which there is an empty component
      rw [List.concat_eq_append] at hend ⊢
      rcases hend with hnil | hlast
      · exact absurd hnil (by simp)
      obtain rfl : last = slash := by simpa using hlast
      rw [resolve, isAbsolute_append (by simp), List.append_assoc, List.singleton_append, resolve,
        components_append_slash, components_append_slash, walk_append, walk_append, hempty]
  · next hend =>
    have hne : path ≠ [] := fun hnil => hend (.inl hnil)
    rw [resolve, isAbsolute_append hne, components_append_slash, walk_append]
    rfl

end Path
