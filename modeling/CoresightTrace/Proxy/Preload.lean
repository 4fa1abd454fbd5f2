import CoresightTrace.Framework.CString
import CoresightTrace.Framework.Excision

/-!
# The preloaded forkserver

`cs-proxy` has the target load the forkserver: it appends the path of the library to
the user's `LD_PRELOAD`, with nothing in between. The forkserver takes the path out
again before it forks, so that programs the target starts do not load it. Where the
path stands in the string is not recorded. `scrub_forksrv_env()` looks for it, moves
what follows the first occurrence down, and looks again.

The turns of this loop are cuts in the string that the block holds (`removeTurn_some`),
so the loop ends with a residue of the string (`removeLoop_spec`), in which the path
does not occur. It may have taken out more than was added: an occurrence can overlap
the seam between the user's string and the path. It cannot if no part of the path is
both its start and its end, and then the residue is that of the user's string
(`scrubForksrvEnv_append`).

The two ends are put together in `startForkserver_targetEnviron`, which is about the
environment that `cs-proxy` makes and the one that the forkserver goes on with, and
`startForkserver_library` says for which paths this is the user's own.
-/

namespace CsTrace
namespace Preload

open CText Excision

/-! ### The variables -/

/-- `"LD_PRELOAD"`. -/
def ldPreload : CString := .ofBuffer ['L', 'D', '_', 'P', 'R', 'E', 'L', 'O', 'A', 'D']

/-- `"LD_LIBRARY_PATH"`. -/
def ldLibraryPath : CString :=
  .ofBuffer ['L', 'D', '_', 'L', 'I', 'B', 'R', 'A', 'R', 'Y', '_', 'P', 'A', 'T', 'H']

/-- `"__CS_PROXY"`. -/
def csProxy : CString := .ofBuffer ['_', '_', 'C', 'S', '_', 'P', 'R', 'O', 'X', 'Y']

/-- `"CS_LD_PRELOAD"`. -/
def csLdPreload : CString :=
  .ofBuffer ['C', 'S', '_', 'L', 'D', '_', 'P', 'R', 'E', 'L', 'O', 'A', 'D']

/-- `"CS_LD_LIBRARY_PATH"`. -/
def csLdLibraryPath : CString :=
  .ofBuffer
    ['C', 'S', '_', 'L', 'D', '_', 'L', 'I', 'B', 'R', 'A', 'R', 'Y', '_', 'P', 'A', 'T', 'H']

/-- `"CS_DEFER_FORKSRV"`. -/
def csDeferForksrv : CString :=
  .ofBuffer ['C', 'S', '_', 'D', 'E', 'F', 'E', 'R', '_', 'F', 'O', 'R', 'K', 'S', 'R', 'V']

/-- `"CS_PASS_ENV"`. -/
def csPassEnv : CString := .ofBuffer ['C', 'S', '_', 'P', 'A', 'S', 'S', '_', 'E', 'N', 'V']

/-- `CS_PASS_ENV_MAX`. -/
def csPassEnvMax : ℕ := 16

/-! ### The environment of the target -/

/-- `append_string()`. -/
def appendString (malloc : Malloc) (str1 str2 : Option CString) : Option CString :=
  let str1 := str1.getD (.ofBuffer [])
  let str2 := str2.getD (.ofBuffer [])
  (malloc (str1.strlen + str2.strlen + 1)).map fun result =>
    -- the second copy takes the terminator along
    .ofBuffer (store (store result.toList 0 str1.chars) str1.strlen str2.terminated)

/-- `"name="`. -/
def assignment (name : CString) : CString := name ++ .ofBuffer ['=']

/-- The tokens that `strtok` finds between the separators. -/
def strtok (s : CString) (sep : Char) : List CString :=
  ((s.chars.splitOn sep).filter (· ≠ [])).map .ofBuffer

/-- The loop over the names of `CS_PASS_ENV`, with the number of variables passed so far;
`none` if `cs-proxy` gives up because there are too many. -/
def passEnv (malloc : Malloc) (environ : Environ) : ℕ → List CString →
    Option (List (Option CString))
  | _, [] => some []
  | n, name :: names =>
    match getenv environ name with
    | none => passEnv malloc environ n names
    | some value =>
      if n = csPassEnvMax then none
      else
        let entry := appendString malloc (some name) (some (.ofBuffer ['=']))
        let entry := appendString malloc entry (some value)
        (passEnv malloc environ (n + 1) names).map (entry :: ·)

/-- `envp` of `__afl_start_forkserver()`, from the environment of `cs-proxy` and the path of
the library. -/
def targetEnvp (malloc : Malloc) (environ : Environ) (ldForksrvPath : Option CString) :
    Option (List (Option CString)) :=
  let preload := some (assignment ldPreload)
  let preload :=
    match getenv environ csLdPreload with
    | none => preload
    | some user => appendString malloc preload (some user)
  let libraryPath :=
    appendString malloc (some (assignment ldLibraryPath)) (getenv environ csLdLibraryPath)
  let preload :=
    if getenv environ csDeferForksrv = none then appendString malloc preload ldForksrvPath
    else preload
  let envp := [some (envEntry csProxy (.ofBuffer ['1'])), preload, libraryPath]
  match getenv environ csPassEnv with
  | none => some envp
  | some names => (passEnv malloc environ 0 (strtok names ':')).map (envp ++ ·)

/-- The environment that `execve` makes of `envp`, which ends at the first null pointer. -/
def execEnviron : List (Option CString) → Environ
  | some entry :: envp => entry :: execEnviron envp
  | _ => []

/-! ### The forkserver -/

/-- A turn of the loop in `scrub_forksrv_env()`, with the block that `rest` points to;
`none` if `strstr` finds nothing. -/
def removeTurn (fname : CString) (rest : List Char) : Option (List Char) :=
  (strstr (cstr rest) fname.chars).map fun hit =>
    let i := (cstr rest).length - hit.length
    let len := fname.strlen
    memmove rest i (i + len) ((cstr (rest.drop (i + len))).length + 1)

/-- The loop; `none` if it has not ended within so many turns. -/
def removeLoop (fname : CString) : ℕ → List Char → Option (List Char)
  | 0, _ => none
  | n + 1, rest =>
    match removeTurn fname rest with
    | none => some rest
    | some rest => removeLoop fname n rest

/-- `scrub_forksrv_env()`, where `fname` is the path that `dladdr` tells, if it does; `none`
if the loop has not ended within so many turns. -/
def scrubForksrvEnv (malloc : Malloc) (fname : Option CString) (turns : ℕ)
    (environ : Environ) : Option Environ :=
  let preload := getenv environ ldPreload
  let environ := unsetenv environ csProxy
  match preload, fname with
  | some preload, some fname =>
    match strdup malloc preload with
    | none => some environ
    | some rest =>
      (removeLoop fname turns rest).map fun rest =>
        -- nothing but separators is left
        if rest[strspn (cstr rest) [':', ' ']]? = some '\x00' then unsetenv environ ldPreload
        else setenv malloc environ ldPreload (.ofBuffer rest)
  | _, _ => some environ

/-- The environment with which `__cs_start_forkserver()` goes on. -/
def startForkserver (malloc : Malloc) (fname : Option CString) (turns : ℕ)
    (environ : Environ) : Option Environ :=
  if (getenv environ csProxy).isSome then scrubForksrvEnv malloc fname turns environ
  else some environ

/-! ### The loop -/

section Loop

variable {fname s : CString} {rest : List Char}

/-- Where the path does not occur, the loop is left. -/
theorem removeTurn_eq_none (h : Holds rest s) :
    removeTurn fname rest = none ↔ ¬ fname.chars <:+: s.chars := by
  unfold removeTurn
  rw [Option.map_eq_none_iff, h.cstr, ← strstr_isSome, Option.not_isSome_iff_eq_none]

/-- **A turn.** What follows the occurrence is moved onto it, and the block then holds the
string with the occurrence cut out. -/
theorem removeTurn_some {rest' : List Char} (h : Holds rest s)
    (hturn : removeTurn fname rest = some rest') :
    rest'.length = rest.length ∧ ∃ t, Holds rest' t ∧ Cut fname.chars s.chars t.chars := by
  unfold removeTurn at hturn
  obtain ⟨hit, hhit, hmove⟩ := Option.map_eq_some_iff.mp hturn
  rw [h.cstr] at hhit hmove
  obtain ⟨⟨q, hq⟩, ⟨p, hp⟩⟩ := strstr_eq_some hhit
  have hs : s.chars = p ++ fname.chars ++ q := by
    rw [List.append_assoc, hq, hp]
  have hi : s.chars.length - hit.length = p.length := by
    rw [← hp, List.length_append, Nat.add_sub_cancel]
  -- `strlen` behind the occurrence reads to the terminator of the string
  have hlen : cstr (rest.drop (p.length + fname.strlen)) = q := by
    rw [CString.strlen, ← List.length_append]
    exact h.cstr_drop hs
  have hrest : rest' = memmove rest p.length (p.length + fname.strlen) (q.length + 1) := by
    rw [← hmove, hi]
    show memmove rest _ _ ((cstr (rest.drop (p.length + fname.strlen))).length + 1) = _
    rw [hlen]
  have hnul : '\x00' ∉ p ++ q := by
    intro hmem
    apply s.nul
    rw [hs]
    rcases List.mem_append.mp hmem with hp | hq
    · exact List.mem_append_left _ (List.mem_append_left _ hp)
    · exact List.mem_append_right _ hq
  rw [hrest]
  exact ⟨h.length_memmove hs, ⟨p ++ q, hnul⟩, h.memmove hs rfl, p, q, hs, rfl⟩

/-- **The loop.** It ends within as many turns as the string has characters, and one more
to see that it is done, and leaves a residue of the string in the block. -/
theorem removeLoop_spec (hf : fname.chars ≠ []) (h : Holds rest s) :
    ∃ rest' t, (∀ n, s.strlen < n → removeLoop fname n rest = some rest') ∧
      rest'.length = rest.length ∧ Holds rest' t ∧ Residue fname.chars s.chars t.chars := by
  -- each turn shortens the string, so this is by induction on its length
  induction hn : s.strlen using Nat.strong_induction_on generalizing s rest with
  | _ len ih =>
    subst hn
    cases hturn : removeTurn fname rest with
    | none =>
      refine ⟨rest, s, ?_, rfl, h, Residue.refl ((removeTurn_eq_none h).mp hturn)⟩
      intro n hn
      obtain ⟨n, rfl⟩ := Nat.exists_eq_add_of_lt hn
      rw [removeLoop, hturn]
    | some rest₁ =>
      obtain ⟨hlen₁, s₁, h₁, hcut⟩ := removeTurn_some h hturn
      have hlt : s₁.strlen < s.strlen := hcut.length_lt hf
      obtain ⟨rest', t, hloop, hlen, ht, hres⟩ := ih s₁.strlen hlt h₁ rfl
      refine ⟨rest', t, ?_, hlen.trans hlen₁, ht, hres.head hcut⟩
      intro n hn
      obtain ⟨n, rfl⟩ := Nat.exists_eq_add_of_lt hn
      rw [removeLoop, hturn]
      exact hloop _ (hlt.trans_le (Nat.le_add_right _ _))

end Loop

/-! ### The scrubbed environment -/

/-- Nothing but separators. -/
def Blank (s : CString) : Prop := ∀ c ∈ s.chars, c ∈ [':', ' ']

instance : DecidablePred Blank := fun s => List.decidableBAll (· ∈ [':', ' ']) s.chars

/-- The environment with the string that is left of `LD_PRELOAD`. -/
def putPreload (malloc : Malloc) (environ : Environ) (t : CString) : Environ :=
  if Blank t then unsetenv environ ldPreload else setenv malloc environ ldPreload t

section Scrub

variable {malloc : Malloc} {environ environ' : Environ} {fname s : CString}

theorem ldPreload_eq_notMem : '=' ∉ ldPreload.chars := by decide

theorem csProxy_eq_notMem : '=' ∉ csProxy.chars := by decide

theorem ldPreload_ne_csProxy : ldPreload ≠ csProxy := by decide

theorem getenv_putPreload (hm : malloc.Serves) (environ : Environ) (t : CString) :
    getenv (putPreload malloc environ t) ldPreload = if Blank t then none else some t := by
  unfold putPreload
  by_cases ht : Blank t
  · rw [if_pos ht, if_pos ht, getenv_unsetenv_self]
  · rw [if_neg ht, if_neg ht, getenv_setenv_self hm]

/-- A string held by the block is put into the environment as the source does it. -/
theorem putPreload_of_holds {rest : List Char} (h : Holds rest s) :
    (if rest[strspn (cstr rest) [':', ' ']]? = some '\x00' then unsetenv environ ldPreload
      else setenv malloc environ ldPreload (.ofBuffer rest)) = putPreload malloc environ s := by
  unfold putPreload
  rw [h.ofBuffer]
  exact if_congr (h.strspn _) rfl rfl

/-- With memory for the copy, the string in the environment gives way to a residue of it. -/
theorem scrubForksrvEnv_spec (hf : fname.chars ≠ []) (hm : malloc.Serves)
    (hs : getenv environ ldPreload = some s) :
    ∃ t : CString, Residue fname.chars s.chars t.chars ∧ ∀ n, s.strlen < n →
      scrubForksrvEnv malloc (some fname) n environ =
        some (putPreload malloc (unsetenv environ csProxy) t) := by
  obtain ⟨block, hblock⟩ := Option.isSome_iff_exists.mp (hm (s.strlen + 1))
  have hdup : strdup malloc s = some (store block.toList 0 s.terminated) := by
    unfold strdup
    rw [hblock]
    rfl
  obtain ⟨rest, t, hloop, -, ht, hres⟩ := removeLoop_spec hf (holds_strdup hdup)
  refine ⟨t, hres, ?_⟩
  intro n hn
  unfold scrubForksrvEnv
  simp only [hs, hdup, hloop n hn, Option.map_some]
  rw [putPreload_of_holds ht]

/-- What `scrub_forksrv_env()` can do to the environment. -/
theorem scrubForksrvEnv_cases {fname : Option CString} {n : ℕ}
    (h : scrubForksrvEnv malloc fname n environ = some environ') :
    environ' = unsetenv environ csProxy ∨ environ' = unsetenv (unsetenv environ csProxy) ldPreload ∨
      ∃ t, environ' = setenv malloc (unsetenv environ csProxy) ldPreload t := by
  unfold scrubForksrvEnv at h
  dsimp only at h
  split at h
  · split at h
    · exact Or.inl (Option.some.inj h).symm
    · obtain ⟨rest, -, rfl⟩ := Option.map_eq_some_iff.mp h
      right
      split
      · exact Or.inl rfl
      · exact Or.inr ⟨_, rfl⟩
  · exact Or.inl (Option.some.inj h).symm

/-- **Frame.** However it goes, `__CS_PROXY` is gone, and no variable but this one and
`LD_PRELOAD` is touched. -/
theorem scrubForksrvEnv_frame {fname : Option CString} {n : ℕ}
    (h : scrubForksrvEnv malloc fname n environ = some environ') :
    getenv environ' csProxy = none ∧ ∀ name : CString, '=' ∉ name.chars → name ≠ ldPreload →
      name ≠ csProxy → getenv environ' name = getenv environ name := by
  -- all but `LD_PRELOAD` is as `unsetenv` leaves it
  have hrest : ∀ name : CString, '=' ∉ name.chars → name ≠ ldPreload →
      getenv environ' name = getenv (unsetenv environ csProxy) name := by
    intro name hname hne
    rcases scrubForksrvEnv_cases h with rfl | rfl | ⟨t, rfl⟩
    · rfl
    · exact getenv_unsetenv_of_ne ldPreload_eq_notMem hname hne
    · exact getenv_setenv_of_ne malloc ldPreload_eq_notMem hname hne
  constructor
  · rw [hrest csProxy csProxy_eq_notMem ldPreload_ne_csProxy.symm, getenv_unsetenv_self]
  · intro name hname hne hne'
    rw [hrest name hname hne, getenv_unsetenv_of_ne csProxy_eq_notMem hname hne']

end Scrub

/-! ### The path appended -/

section Append

variable {malloc : Malloc} {a b v : CString}

/-- `append_string()` concatenates, and a null pointer counts as the empty string. -/
theorem appendString_eq_some {str1 str2 : Option CString}
    (h : appendString malloc str1 str2 = some v) :
    v = str1.getD (.ofBuffer []) ++ str2.getD (.ofBuffer []) := by
  unfold appendString at h
  obtain ⟨result, -, rfl⟩ := Option.map_eq_some_iff.mp h
  refine (holds_store ?_ rfl).ofBuffer
  -- the first copy is in front of the second
  exact List.take_left

theorem appendString_of_serves (hm : malloc.Serves) (a b : CString) :
    appendString malloc (some a) (some b) = some (a ++ b) := by
  have hsome : (appendString malloc (some a) (some b)).isSome := by
    show ((malloc (a.strlen + b.strlen + 1)).map _).isSome
    rw [Option.isSome_map]
    exact hm _
  obtain ⟨v, hv⟩ := Option.isSome_iff_exists.mp hsome
  rw [hv, appendString_eq_some hv]
  rfl

/-- **The path is taken out again.** If no part of the path is both its start and its end,
the forkserver leaves what it would leave of the string the path was appended to. -/
theorem scrubForksrvEnv_append {environ : Environ} {f u : CString} (hf : f.chars ≠ [])
    (hborder : Unbordered f.chars) (hm : malloc.Serves)
    (hget : getenv environ ldPreload = some (u ++ f)) :
    ∃ (t : CString) (environ' : Environ), Residue f.chars u.chars t.chars ∧
      (∀ n, (u ++ f).strlen < n → scrubForksrvEnv malloc (some f) n environ = some environ') ∧
      getenv environ' ldPreload = if Blank t then none else some t := by
  obtain ⟨t, hres, hscrub⟩ := scrubForksrvEnv_spec hf hm hget
  -- the residue of `u` is one of the whole, and there is no other
  obtain ⟨-, t', -, -, -, hres'⟩ := removeLoop_spec hf (⟨[], rfl⟩ : Holds u.terminated u)
  have htt : t = t' := by
    ext1
    exact Residue.of_append hborder hres hres'
  subst htt
  exact ⟨t, _, hres', hscrub, getenv_putPreload hm _ t⟩

/-- **Adding and removing the path.** The loop ends on every string and leaves none of the
path in it. A path that overlaps no copy of itself is removed without a trace from a string
that it was appended to and did not occur in. -/
theorem scrubForksrvEnv_undoes_append (f : CString) (hf : f.chars ≠ []) :
    (∀ (s : CString) (rest : List Char), Holds rest s → ∃ (rest' : List Char) (t : CString),
      (∀ n, s.strlen < n → removeLoop f n rest = some rest') ∧ Holds rest' t ∧
        ¬ f.chars <:+: t.chars) ∧
    ∀ u : CString, ¬ f.chars <:+: u.chars → Unbordered f.chars →
      ∀ (malloc malloc' : Malloc) (v : CString) (environ : Environ),
        appendString malloc (some u) (some f) = some v → getenv environ ldPreload = some v →
        malloc'.Serves → ∃ environ' : Environ,
          (∀ n, v.strlen < n → scrubForksrvEnv malloc' (some f) n environ = some environ') ∧
          getenv environ' ldPreload = if Blank u then none else some u := by
  constructor
  · intro s rest h
    obtain ⟨rest', t, hloop, -, ht, hres⟩ := removeLoop_spec hf h
    exact ⟨rest', t, hloop, ht, hres.2⟩
  · intro u hclean hborder malloc malloc' v environ hv hget hm
    have huf : v = u ++ f := appendString_eq_some hv
    subst huf
    obtain ⟨t, environ', hres, hscrub, hput⟩ := scrubForksrvEnv_append hf hborder hm hget
    have htu : t = u := by
      ext1
      exact hres.unique hborder (Residue.refl hclean)
    subst htu
    exact ⟨environ', hscrub, hput⟩

/-- With the path `/l` behind `a:`, and behind the separators `: `. -/
theorem scrubForksrvEnv_undoes_append_path :
    (∃ environ', (∀ n, 4 < n →
      scrubForksrvEnv (fun n => some (.replicate n 'x')) (some (.ofBuffer ['/', 'l'])) n
        [envEntry ldPreload (.ofBuffer ['a', ':', '/', 'l'])] = some environ') ∧
      getenv environ' ldPreload = some (.ofBuffer ['a', ':'])) ∧
    ∃ environ', (∀ n, 4 < n →
      scrubForksrvEnv (fun n => some (.replicate n 'x')) (some (.ofBuffer ['/', 'l'])) n
        [envEntry ldPreload (.ofBuffer [':', ' ', '/', 'l'])] = some environ') ∧
      getenv environ' ldPreload = none := by
  have hserves : Malloc.Serves fun n => some (.replicate n 'x') := fun _ => rfl
  have hborder : Unbordered (CString.ofBuffer ['/', 'l']).chars := by
    intro b hpre hsuf hne
    have hmem : b ∈ ['/', 'l'].inits := (List.mem_inits b _).mpr hpre
    have hcases : b = [] ∨ b = ['/'] ∨ b = ['/', 'l'] := by simpa using hmem
    rcases hcases with rfl | rfl | rfl
    · rfl
    · exact absurd hsuf (by decide)
    · exact absurd rfl hne
  have hundoes := (scrubForksrvEnv_undoes_append (.ofBuffer ['/', 'l']) (by decide)).2
  constructor
  · obtain ⟨environ', hscrub, hget⟩ := hundoes (.ofBuffer ['a', ':']) (by decide) hborder
      _ _ _ _ (appendString_of_serves hserves _ _)
      (getenv_cons_self ldPreload (.ofBuffer ['a', ':', '/', 'l']) []) hserves
    refine ⟨environ', hscrub, ?_⟩
    rw [hget, if_neg (by decide)]
  · obtain ⟨environ', hscrub, hget⟩ := hundoes (.ofBuffer [':', ' ']) (by decide) hborder
      _ _ _ _ (appendString_of_serves hserves _ _)
      (getenv_cons_self ldPreload (.ofBuffer [':', ' ', '/', 'l']) []) hserves
    refine ⟨environ', hscrub, ?_⟩
    rw [hget, if_pos (by decide)]

/-- A path with a part that is both its start and its end may take some of the user's string
along: of `aba` behind `ab`, the first occurrence is not the one appended. -/
example : (removeLoop (.ofBuffer ['a', 'b', 'a']) 2
    ['a', 'b', 'a', 'b', 'a', '\x00']).map CString.ofBuffer = some (.ofBuffer ['b', 'a']) := by
  decide

end Append

/-! ### From `cs-proxy` to the forkserver -/

section Target

variable {malloc : Malloc} {environ : Environ} {f : CString} {envp : List (Option CString)}

/-- The user's string, or the empty one. -/
def userPreload (environ : Environ) : CString := (getenv environ csLdPreload).getD (.ofBuffer [])

/-- The environment starts with the mark of `cs-proxy` and with the path appended to the
user's string. -/
theorem targetEnvp_eq_some (hm : malloc.Serves) (hdefer : getenv environ csDeferForksrv = none)
    (h : targetEnvp malloc environ (some f) = some envp) :
    ∃ tail, envp = some (envEntry csProxy (.ofBuffer ['1'])) ::
      some (envEntry ldPreload (userPreload environ ++ f)) :: tail := by
  -- the user's string first, if there is one, and then the path
  have hpreload : appendString malloc
      (match getenv environ csLdPreload with
        | none => some (assignment ldPreload)
        | some user => appendString malloc (some (assignment ldPreload)) (some user)) (some f) =
      some (envEntry ldPreload (userPreload environ ++ f)) := by
    unfold userPreload
    cases huser : getenv environ csLdPreload with
    | none =>
      rw [appendString_of_serves hm]
      rfl
    | some user =>
      dsimp only
      rw [appendString_of_serves hm, appendString_of_serves hm, Option.some.injEq]
      ext1
      simp only [CString.chars_append, assignment, envEntry, Option.getD_some, List.append_assoc]
  unfold targetEnvp at h
  simp only [hdefer, if_true, hpreload] at h
  split at h
  · exact ⟨_, (Option.some.inj h).symm⟩
  · obtain ⟨passed, -, rfl⟩ := Option.map_eq_some_iff.mp h
    exact ⟨_, rfl⟩

/-- What the target finds in its environment. -/
theorem getenv_targetEnviron (hm : malloc.Serves) (hdefer : getenv environ csDeferForksrv = none)
    (h : targetEnvp malloc environ (some f) = some envp) :
    getenv (execEnviron envp) csProxy = some (.ofBuffer ['1']) ∧
      getenv (execEnviron envp) ldPreload = some (userPreload environ ++ f) := by
  obtain ⟨tail, rfl⟩ := targetEnvp_eq_some hm hdefer h
  have hmark : (envValue csProxy (envEntry csProxy (.ofBuffer ['1']))).isSome := by
    rw [envValue_envEntry]
    rfl
  simp only [execEnviron]
  constructor
  · exact getenv_cons_self _ _ _
  · rw [getenv_cons_of_ne csProxy_eq_notMem ldPreload_eq_notMem ldPreload_ne_csProxy hmark,
      getenv_cons_self]

/-- **The forkserver leaves the user's environment.** In the environment that `cs-proxy`
makes, the forkserver ends with `LD_PRELOAD` as it would leave the user's string, which is
this string if the path does not occur in it, and the mark of `cs-proxy` is gone. -/
theorem startForkserver_targetEnviron {malloc' : Malloc} (hf : f.chars ≠ [])
    (hborder : Unbordered f.chars) (hm : malloc.Serves) (hm' : malloc'.Serves)
    (hdefer : getenv environ csDeferForksrv = none)
    (h : targetEnvp malloc environ (some f) = some envp) :
    ∃ (t : CString) (environ' : Environ),
      (∀ n, (userPreload environ ++ f).strlen < n →
        startForkserver malloc' (some f) n (execEnviron envp) = some environ') ∧
      getenv environ' csProxy = none ∧
      getenv environ' ldPreload = (if Blank t then none else some t) ∧
      ¬ f.chars <:+: t.chars ∧
      (¬ f.chars <:+: (userPreload environ).chars → t = userPreload environ) := by
  obtain ⟨hproxy, hpreload⟩ := getenv_targetEnviron hm hdefer h
  obtain ⟨t, environ', hres, hscrub, hput⟩ := scrubForksrvEnv_append hf hborder hm' hpreload
  have hstart : ∀ n, startForkserver malloc' (some f) n (execEnviron envp) =
      scrubForksrvEnv malloc' (some f) n (execEnviron envp) := by
    intro n
    unfold startForkserver
    rw [hproxy, Option.isSome_some, if_pos rfl]
  refine ⟨t, environ', ?_, ?_, hput, hres.2, ?_⟩
  · intro n hn
    rw [hstart]
    exact hscrub n hn
  · exact (scrubForksrvEnv_frame (hscrub _ (Nat.lt_succ_self _))).1
  · intro hclean
    ext1
    exact hres.unique hborder (Residue.refl hclean)

/-- **The library of `cs-proxy`.** It lies next to the program, under an absolute path. Unless a
directory on the way starts with the name of the library, or the user's string has the path in
it, the forkserver leaves the user's string. -/
theorem startForkserver_library {malloc' : Malloc} {dir libname : List Char}
    (hf : f.chars = dir ++ '/' :: libname) (hdir : dir.head? = some '/') (hname : '/' ∉ libname)
    (hway : ¬ '/' :: libname <:+: dir) (hclean : ¬ f.chars <:+: (userPreload environ).chars)
    (hm : malloc.Serves) (hm' : malloc'.Serves) (hdefer : getenv environ csDeferForksrv = none)
    (h : targetEnvp malloc environ (some f) = some envp) :
    ∃ environ' : Environ,
      (∀ n, (userPreload environ ++ f).strlen < n →
        startForkserver malloc' (some f) n (execEnviron envp) = some environ') ∧
      getenv environ' csProxy = none ∧
      getenv environ' ldPreload =
        if Blank (userPreload environ) then none else some (userPreload environ) := by
  have hne : f.chars ≠ [] := by
    rw [hf]
    exact List.append_ne_nil_of_right_ne_nil dir (List.cons_ne_nil _ _)
  have hborder : Unbordered f.chars := by
    rw [hf]
    exact Unbordered.of_lastPiece hdir hname hway
  obtain ⟨t, environ', hstart, hproxy, hput, -, hkeep⟩ :=
    startForkserver_targetEnviron hne hborder hm hm' hdefer h
  rw [hkeep hclean] at hput
  exact ⟨environ', hstart, hproxy, hput⟩

end Target

end Preload
end CsTrace
