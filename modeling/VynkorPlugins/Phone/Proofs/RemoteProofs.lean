import VynkorPlugins.Phone.Params

/-!
# A remote command is read as it was meant

Whatever its texts are, a shell takes the line of a remote command for that one command.
-/

namespace Phone

open Shell (tokenize simpleCommand lits quote)

/-- The change into the home directory, for a command that asks for it. -/
def RemoteCmd.home (cmd : RemoteCmd) : List Shell.Token :=
  if cmd.in_home then
    [.word (lits false ['c', 'd']), .word [.param ['H', 'O', 'M', 'E'] true], .operator ['&', '&']]
  else []

/-- The command that was asked for. -/
def RemoteCmd.command (cmd : RemoteCmd) : Shell.Command where
  assignments := cmd.env.map fun (k, v) => (k.toList, v.toList)
  argv := (cmd.program :: cmd.args).map String.toList

def envWords (env : List (String × String)) : List Shell.Token :=
  env.map fun (k, v) => .word (lits false k.toList ++ .lit '=' false :: lits true v.toList)

def words (args : List String) : List Shell.Token := args.map fun a => .word (lits true a.toList)

variable {cmd : RemoteCmd} {env : List (String × String)} {text : String} {tokens : List Shell.Token}

theorem toList_shell_quote (s : String) : (shell_quote s).toList = quote s.toList := by
  unfold shell_quote
  simp only [String.toList_append, String.toList_ofList]
  rfl

theorem isName_of_valid_env_key {k : String} (h : valid_env_key k = true) :
    Shell.isName k.toList = true := by
  unfold valid_env_key at h
  cases hk : k.toList with
  | nil =>
    rw [hk] at h
    cases h
  | cons c cs =>
    rw [hk] at h
    simp only [Bool.and_eq_true, Bool.or_eq_true, decide_eq_true_eq, List.all_eq_true] at h
    simp only [Shell.isName, Bool.and_eq_true, Bool.or_eq_true, decide_eq_true_eq, List.all_eq_true]
    refine ⟨?_, fun d hd => ?_⟩
    · rcases h.1 with hupper | hline
      · exact .inl (Bool.or_eq_true_iff.mpr (.inl hupper))
      · exact .inr hline
    · rcases h.2 d hd with (hupper | hdigit) | hline
      · exact .inl (Bool.or_eq_true_iff.mpr (.inl (Bool.or_eq_true_iff.mpr (.inl hupper))))
      · exact .inl (Bool.or_eq_true_iff.mpr (.inr hdigit))
      · exact .inr hline

theorem foldlM_render_env (h : render_env env = .ok text) (tokens : List Shell.Token) :
    text.toList.foldlM Shell.step ⟨tokens, .blank⟩ = some ⟨tokens ++ envWords env, .blank⟩ := by
  induction env generalizing text tokens with
  | nil =>
    obtain rfl := Except.ok.inj h
    simp [envWords]
  | cons p env ih =>
    obtain ⟨k, v⟩ := p
    obtain ⟨_, hkey, h⟩ := Rust.bind_eq_ok.mp h
    obtain ⟨rest, hrest, h⟩ := Rust.bind_eq_ok.mp h
    obtain rfl := Except.ok.inj h
    have hname : Shell.isName k.toList = true := by
      refine isName_of_valid_env_key ?_
      rw [Rust.reject_eq_ok] at hkey
      simpa using hkey
    have hword : (k.toList ++ '=' :: quote v.toList).foldlM Shell.step ⟨tokens, .blank⟩ = _ :=
      Shell.foldlM_assignment hname v.toList
    have hlist : (k ++ "=" ++ shell_quote v ++ " " ++ rest).toList =
        (k.toList ++ '=' :: quote v.toList) ++ ' ' :: rest.toList := by
      simp [String.toList_append, toList_shell_quote]
    rw [hlist, List.foldlM_append, hword]
    show (' ' :: rest.toList).foldlM Shell.step ⟨tokens, .plain _⟩ = _
    rw [List.foldlM_cons]
    show rest.toList.foldlM Shell.step ⟨tokens ++ [.word _], .blank⟩ = _
    rw [ih hrest, List.append_assoc]
    rfl

/-- The arguments after a word are the tokens after it. -/
theorem foldlM_render_args (args : List String) (tokens : List Shell.Token) (w : Shell.Word) :
    ((render_args args).toList.foldlM Shell.step ⟨tokens, .plain w⟩).bind Shell.finish =
      some (tokens ++ .word w :: words args) := by
  induction args generalizing tokens w with
  | nil => rfl
  | cons a args ih =>
    have hlist : (render_args (a :: args)).toList = ' ' :: quote a.toList ++ (render_args args).toList := by
      simp [render_args, String.toList_append, toList_shell_quote]
    rw [hlist, List.cons_append, List.foldlM_cons]
    show ((quote a.toList ++ _).foldlM Shell.step ⟨tokens ++ [.word w], .blank⟩).bind _ = _
    rw [List.foldlM_append, Shell.foldlM_quote]
    show ((render_args args).toList.foldlM Shell.step ⟨tokens ++ [.word w], .plain _⟩).bind _ = _
    rw [ih, List.append_assoc]
    rfl

theorem foldlM_home (cmd : RemoteCmd) :
    (if cmd.in_home then "cd \"$HOME\" && " else "").toList.foldlM Shell.step ⟨[], .blank⟩ =
      some ⟨cmd.home, .blank⟩ := by
  unfold RemoteCmd.home
  cases cmd.in_home
  · rfl
  · rfl

theorem tokenize_to_shell (h : cmd.to_shell = .ok text) :
    tokenize text.toList = some (cmd.home ++ (envWords cmd.env ++ words (cmd.program :: cmd.args))) := by
  obtain ⟨_, -, h⟩ := Rust.bind_eq_ok.mp h
  obtain ⟨env, henv, h⟩ := Rust.bind_eq_ok.mp h
  obtain rfl := Except.ok.inj h
  unfold tokenize
  rw [String.toList_append, String.toList_append, String.toList_append, List.foldlM_append,
    List.foldlM_append, List.foldlM_append, foldlM_home]
  show (((env.toList.foldlM Shell.step ⟨cmd.home, .blank⟩).bind _).bind _).bind _ = _
  rw [foldlM_render_env henv]
  show (((shell_quote cmd.program).toList.foldlM Shell.step ⟨_, .blank⟩).bind _).bind _ = _
  rw [toList_shell_quote, Shell.foldlM_quote]
  show ((render_args cmd.args).toList.foldlM Shell.step ⟨_, .plain _⟩).bind _ = _
  rw [foldlM_render_args, List.append_assoc]
  rfl

theorem simpleCommand_words (args : List String) :
    simpleCommand (words args) = some ⟨[], args.map String.toList⟩ := by
  have hlits := Shell.simpleCommand_lits (args.map String.toList)
  rw [List.map_map] at hlits
  exact hlits

theorem simpleCommand_envWords (h : render_env env = .ok text) {command : Shell.Command}
    (hrest : simpleCommand tokens = some command) :
    simpleCommand (envWords env ++ tokens) = some { command with
      assignments := (env.map fun (k, v) => (k.toList, v.toList)) ++ command.assignments } := by
  induction env generalizing text with
  | nil => exact hrest
  | cons p env ih =>
    obtain ⟨k, v⟩ := p
    obtain ⟨_, hkey, h⟩ := Rust.bind_eq_ok.mp h
    obtain ⟨rest, hrest', -⟩ := Rust.bind_eq_ok.mp h
    have hname : Shell.isName k.toList = true := by
      refine isName_of_valid_env_key ?_
      rw [Rust.reject_eq_ok] at hkey
      simpa using hkey
    exact Shell.simpleCommand_assignment hname (ih hrest')

/-- What is written is read as the one command it was written from, after the change into the home directory
if the command asks for it. -/
theorem to_shell_exact (cmd : RemoteCmd) (text : String) (h : cmd.to_shell = .ok text) :
    ∃ tokens, tokenize text.toList = some (cmd.home ++ tokens) ∧
      simpleCommand tokens = some cmd.command := by
  refine ⟨_, tokenize_to_shell h, ?_⟩
  obtain ⟨_, -, h⟩ := Rust.bind_eq_ok.mp h
  obtain ⟨env, henv, -⟩ := Rust.bind_eq_ok.mp h
  rw [simpleCommand_envWords henv (simpleCommand_words _)]
  simp [RemoteCmd.command]

/-- `K='a b' 'printf' '%s' 'it'\''s; $HOME'` in the home directory. -/
theorem to_shell_exact_hostile :
    ∃ tokens, tokenize
        "cd \"$HOME\" && K='a b' 'printf' '%s' 'it'\\''s; $HOME'".toList =
          some (RemoteCmd.home ⟨[("K", "a b")], "printf", ["%s", "it's; $HOME"], true⟩ ++ tokens) ∧
      simpleCommand tokens =
        some (RemoteCmd.command ⟨[("K", "a b")], "printf", ["%s", "it's; $HOME"], true⟩) :=
  to_shell_exact ⟨[("K", "a b")], "printf", ["%s", "it's; $HOME"], true⟩ _ (by decide)

/-- In the home directory, the text is not one simple command. -/
theorem to_shell_not_simple :
    ¬ ∀ (cmd : RemoteCmd) (text : String), cmd.to_shell = .ok text →
      (tokenize text.toList).bind simpleCommand = some cmd.command := by
  intro h
  have hone := h ⟨[], "true", [], true⟩ "cd \"$HOME\" && 'true'" (by decide)
  revert hone
  decide

end Phone
