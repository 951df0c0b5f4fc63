import NetworkLabs.Library.Halting
import NetworkLabs.Sponge.Wire.Parser

/-!
# File descriptors

A `FileDescriptor` counts its reads and writes and remembers the end of the file. What
is written to it is a list of views into strings: each call of `writev` takes as many
bytes as the kernel wants, the views lose that prefix, and `write` goes on until nothing
is left or until the first call is done. What the kernel answers to the calls is a list
of counts, or of errors.
-/

namespace NetworkLabs

/-- What is thrown: an exception of the library by its text, or a system call that
failed. -/
inductive Failure where
  | runtimeError (what : String)
  | outOfRange (what : String)
  | unixError (attempt : String) (errno : ℕ)
  deriving DecidableEq

/-- What the kernel answers to a call: a value, or the number of an error. -/
abbrev Answer (α : Type) := Except ℕ α

/-- An error of the kernel is thrown. -/
def systemCall {α : Type} (attempt : String) (answer : Answer α) : Except Failure α :=
  answer.mapError (.unixError attempt)

theorem systemCall_eq_ok_iff {α : Type} {attempt : String} {answer : Answer α} {a : α} :
    systemCall attempt answer = .ok a ↔ answer = .ok a := by
  cases answer with
  | error errno => exact iff_of_false nofun nofun
  | ok b => simp [systemCall, Except.mapError]

theorem systemCall_eq_error_iff {α : Type} {attempt : String} {answer : Answer α} {e : Failure} :
    systemCall attempt answer = .error e ↔
      ∃ errno, answer = .error errno ∧ e = .unixError attempt errno := by
  cases answer with
  | error errno => simp [systemCall, Except.mapError, eq_comm]
  | ok b => exact iff_of_false nofun (by rintro ⟨errno, h, -⟩; exact nomatch h)

namespace BufferList

/-- The loop of `remove_prefix`, which `BufferList` and `BufferViewList` share. -/
def removePrefix (what : String) : ℕ → BufferList → Except Failure BufferList
  | 0, l => .ok l
  | _ + 1, [] => .error (.outOfRange what)
  | n + 1, buf :: l =>
      if n + 1 < buf.length then .ok (buf.drop (n + 1) :: l)
      else removePrefix what (n + 1 - buf.length) l

/-- The prefix is removed from the whole string, and there has to be one. -/
theorem removePrefix_eq (what : String) (l : BufferList) (n : ℕ) (h : n ≤ l.size) :
    ∃ l', removePrefix what n l = .ok l' ∧ l'.concatenate = l.concatenate.drop n := by
  induction l generalizing n with
  | nil =>
      obtain rfl : n = 0 := by simpa [size] using h
      exact ⟨[], rfl, rfl⟩
  | cons buf l ih =>
      cases n with
      | zero => exact ⟨buf :: l, rfl, rfl⟩
      | succ n =>
          rw [removePrefix]
          split_ifs with hlt
          · refine ⟨_, rfl, ?_⟩
            rw [concatenate_cons, concatenate_cons, List.drop_append_of_le_length hlt.le]
          · have hrest : n + 1 - buf.length ≤ size l := by
              simp only [size, List.map_cons, List.sum_cons] at h ⊢
              omega
            obtain ⟨l', hl', hconcat⟩ := ih _ hrest
            refine ⟨l', hl', ?_⟩
            rw [hconcat, concatenate_cons, List.drop_append,
              List.drop_of_length_le (not_lt.mp hlt), List.nil_append]

end BufferList

/-- What `as_iovecs` hands to the kernel, and `size`, are those of the pieces. -/
abbrev BufferViewList := BufferList

/-- The members of the class `FDWrapper`, which the duplicates of a descriptor share. -/
structure FileDescriptor where
  fdNum : ℕ
  eof : Bool := false
  closed : Bool := false
  readCount : UInt32 := 0
  writeCount : UInt32 := 0
  deriving DecidableEq

namespace FileDescriptor

def registerRead (fd : FileDescriptor) : FileDescriptor :=
  { fd with readCount := fd.readCount + 1 }

def registerWrite (fd : FileDescriptor) : FileDescriptor :=
  { fd with writeCount := fd.writeCount + 1 }

def close (fd : FileDescriptor) : FileDescriptor := { fd with eof := true, closed := true }

/-- The maximum size of a read. -/
def BUFFER_SIZE : ℕ := 1024 * 1024

def sizeToRead (limit : ℕ) : ℕ := min BUFFER_SIZE limit

/-- The bytes that `::read` returns are the answer of the kernel. -/
def read (fd : FileDescriptor) (limit : ℕ) (answer : Answer (List UInt8)) :
    Except Failure (List UInt8 × FileDescriptor) := do
  let bytes ← systemCall "read" answer
  let fd := if 0 < limit ∧ bytes.length = 0 then { fd with eof := true } else fd
  if sizeToRead limit < bytes.length then .error (.runtimeError "read() read more than requested")
  else return (bytes, fd.registerRead)

/-- A read that goes through. -/
theorem read_eq_ok {fd fd' : FileDescriptor} {limit : ℕ} {answer : Answer (List UInt8)}
    {bytes : List UInt8} (h : fd.read limit answer = .ok (bytes, fd')) :
    answer = .ok bytes ∧ bytes.length ≤ sizeToRead limit ∧
      fd' = (if 0 < limit ∧ bytes.length = 0 then { fd with eof := true }
        else fd).registerRead := by
  rw [read, Halting.bind_eq_ok_iff] at h
  obtain ⟨bytes', hbytes, h⟩ := h
  dsimp only at h
  by_cases hlong : sizeToRead limit < bytes'.length
  · rw [if_pos hlong] at h
    exact nomatch h
  · rw [if_neg hlong] at h
    cases h
    exact ⟨systemCall_eq_ok_iff.mp hbytes, not_lt.mp hlong, rfl⟩

theorem readCount_read {fd fd' : FileDescriptor} {limit : ℕ} {answer : Answer (List UInt8)}
    {bytes : List UInt8} (h : fd.read limit answer = .ok (bytes, fd')) :
    fd'.readCount = fd.readCount + 1 := by
  obtain ⟨-, -, rfl⟩ := read_eq_ok h
  split_ifs
  · rfl
  · rfl

/-- One call of `writev`, and what is left of the buffer. -/
def writeOnce (fd : FileDescriptor) (buffer : BufferViewList) (answer : Answer ℕ) :
    Except Failure (ℕ × BufferViewList × FileDescriptor) := do
  let bytesWritten ← systemCall "writev" answer
  if bytesWritten = 0 ∧ buffer.size ≠ 0 then
    .error (.runtimeError "write returned 0 given non-empty input buffer")
  else if buffer.size < bytesWritten then
    .error (.runtimeError "write wrote more than length of input buffer")
  else do
    let buffer ← BufferList.removePrefix "BufferListView::remove_prefix" bytesWritten buffer
    return (bytesWritten, buffer, fd.registerWrite)

/-- The loop of `write` over the answers of the kernel. It returns how much it has written,
the strings that the kernel took, and the descriptor, or nothing as long as a call is
waiting for its answer. -/
def write (fd : FileDescriptor) (buffer : BufferViewList) (writeAll : Bool) :
    List (Answer ℕ) → Except Failure (Option (ℕ × List (List UInt8) × FileDescriptor))
  | [] => .ok none
  | answer :: answers => do
      let (bytesWritten, rest, fd) ← fd.writeOnce buffer answer
      let taken := buffer.concatenate.take bytesWritten
      if writeAll && rest.size != 0 then
        let later ← write fd rest writeAll answers
        return later.map fun (total, takens, fd) => (bytesWritten + total, taken :: takens, fd)
      else return some (bytesWritten, [taken], fd)

section

variable {fd : FileDescriptor} {buffer : BufferViewList}

/-- A call that goes through took a part of the buffer, and an empty part only of an
empty buffer. -/
theorem writeOnce_eq_ok_iff {answer : Answer ℕ} {n : ℕ} {rest : BufferViewList}
    {fd' : FileDescriptor} : fd.writeOnce buffer answer = .ok (n, rest, fd') ↔
      answer = .ok n ∧ (n = 0 → buffer.size = 0) ∧ n ≤ buffer.size ∧
        BufferList.removePrefix "BufferListView::remove_prefix" n buffer = .ok rest ∧
        fd' = fd.registerWrite := by
  rw [writeOnce, Halting.bind_eq_ok_iff]
  constructor
  · rintro ⟨k, hk, h⟩
    rw [systemCall_eq_ok_iff] at hk
    split_ifs at h with hzero hlong
    rw [Halting.bind_eq_ok_iff] at h
    obtain ⟨rest', hrest, h⟩ := h
    cases h
    exact ⟨hk, fun hn => by_contra fun hne => hzero ⟨hn, hne⟩, not_lt.mp hlong, hrest, rfl⟩
  · rintro ⟨hk, hpos, hle, hrest, rfl⟩
    refine ⟨n, systemCall_eq_ok_iff.mpr hk, ?_⟩
    rw [if_neg fun h => h.2 (hpos h.1), if_neg (not_lt.mpr hle), hrest]
    rfl

theorem writeOnce_spec {answer : Answer ℕ} {n : ℕ} {rest : BufferViewList}
    {fd' : FileDescriptor} (h : fd.writeOnce buffer answer = .ok (n, rest, fd')) :
    n ≤ buffer.size ∧ rest.concatenate = buffer.concatenate.drop n ∧
      rest.size = buffer.size - n ∧ fd' = fd.registerWrite := by
  obtain ⟨-, -, hle, hrest, hfd⟩ := writeOnce_eq_ok_iff.mp h
  obtain ⟨rest', hrest', hconcat⟩ :=
    BufferList.removePrefix_eq "BufferListView::remove_prefix" buffer n hle
  rw [hrest] at hrest'
  cases hrest'
  refine ⟨hle, hconcat, ?_, hfd⟩
  rw [← BufferList.length_concatenate, hconcat, List.length_drop, BufferList.length_concatenate]

/-- A call fails with what the kernel answers, or because the kernel took nothing of
something, or more than there was. -/
theorem writeOnce_error {answer : Answer ℕ} {e : Failure}
    (h : fd.writeOnce buffer answer = .error e) :
      (∃ errno, answer = .error errno ∧ e = .unixError "writev" errno) ∨
      (answer = .ok 0 ∧ buffer.size ≠ 0 ∧
        e = .runtimeError "write returned 0 given non-empty input buffer") ∨
      ∃ n, answer = .ok n ∧ buffer.size < n ∧
        e = .runtimeError "write wrote more than length of input buffer" := by
  rw [writeOnce, Halting.bind_eq_error_iff] at h
  rcases h with h | ⟨n, hn, h⟩
  · exact Or.inl (systemCall_eq_error_iff.mp h)
  · obtain rfl := systemCall_eq_ok_iff.mp hn
    split_ifs at h with hzero hlong
    · cases h
      exact Or.inr (Or.inl ⟨by rw [hzero.1], hzero.2, rfl⟩)
    · cases h
      exact Or.inr (Or.inr ⟨n, rfl, hlong, rfl⟩)
    · obtain ⟨rest, hrest, -⟩ := BufferList.removePrefix_eq "BufferListView::remove_prefix"
        buffer n (not_lt.mp hlong)
      rw [hrest] at h
      exact nomatch h

end

/-- The kernel takes a part of what it is handed, and something unless there is nothing:
`left` is what is still to be written. -/
def Takes : ℕ → List (Answer ℕ) → Prop
  | _, [] => True
  | left, answer :: answers =>
      ∃ n, answer = .ok n ∧ n ≤ left ∧ (n = 0 → left = 0) ∧ Takes (left - n) answers

/-- What `write` comes to: it is waiting, it has handed over the whole buffer, or the
kernel is to blame. -/
def Wrote (fd : FileDescriptor) (buffer : BufferViewList) (answers : List (Answer ℕ)) :
    Except Failure (Option (ℕ × List (List UInt8) × FileDescriptor)) → Prop
  | .ok none => answers.length ≤ buffer.size
  | .ok (some (total, takens, fd')) =>
      total = buffer.size ∧ takens.flatten = buffer.concatenate ∧
        takens.length ≤ max 1 buffer.size ∧
        fd' = { fd with writeCount := fd.writeCount + UInt32.ofNat takens.length }
  | .error e => ¬ Takes buffer.size answers ∧
      ((∃ errno, .error errno ∈ answers ∧ e = .unixError "writev" errno) ∨
      e = .runtimeError "write returned 0 given non-empty input buffer" ∨
      e = .runtimeError "write wrote more than length of input buffer")

theorem takes_cons_error (left errno : ℕ) (answers : List (Answer ℕ)) :
    ¬ Takes left (.error errno :: answers) := by
  rintro ⟨n, h, -⟩
  exact nomatch h

theorem takes_cons_ok {left n : ℕ} {answers : List (Answer ℕ)} :
    Takes left (.ok n :: answers) ↔ n ≤ left ∧ (n = 0 → left = 0) ∧ Takes (left - n) answers := by
  constructor
  · rintro ⟨k, hk, h⟩
    cases hk
    exact h
  · exact fun h => ⟨n, rfl, h⟩

/-- Whatever parts the kernel takes, `write` hands over exactly the bytes of the buffer,
in their order, with no more calls than there are bytes. No prefix is ever too long for
the views, so a failure is one of the kernel. -/
theorem wrote_write (fd : FileDescriptor) (buffer : BufferViewList)
    (answers : List (Answer ℕ)) : Wrote fd buffer answers (fd.write buffer true answers) := by
  induction answers generalizing fd buffer with
  | nil => exact Nat.zero_le _
  | cons answer answers ih =>
      rw [write]
      cases hcall : fd.writeOnce buffer answer with
      | error e =>
          change ¬ Takes buffer.size (answer :: answers) ∧ _
          rcases writeOnce_error hcall with
            ⟨errno, rfl, rfl⟩ | ⟨rfl, hne, rfl⟩ | ⟨n, rfl, hlong, rfl⟩
          · exact ⟨takes_cons_error _ _ _, Or.inl ⟨errno, List.mem_cons_self, rfl⟩⟩
          · exact ⟨fun h => hne ((takes_cons_ok.mp h).2.1 rfl), Or.inr (Or.inl rfl)⟩
          · exact ⟨fun h => absurd (takes_cons_ok.mp h).1 (not_le.mpr hlong),
              Or.inr (Or.inr rfl)⟩
      | ok called =>
          obtain ⟨n, rest, fd'⟩ := called
          obtain ⟨hle, hconcat, hsize, rfl⟩ := writeOnce_spec hcall
          obtain ⟨rfl, hpos, -⟩ := writeOnce_eq_ok_iff.mp hcall
          simp only [bind, Except.bind, pure, Except.pure, Bool.true_and]
          by_cases hrest : rest.size = 0
          · rw [hrest, if_neg (by simp)]
            have hall : buffer.concatenate.take n = buffer.concatenate := by
              apply List.take_of_length_le
              rw [BufferList.length_concatenate]
              omega
            refine ⟨by omega, ?_, le_max_left _ _, rfl⟩
            rw [List.flatten_singleton, hall]
          · rw [if_pos (by simpa using hrest)]
            have hlater := ih fd.registerWrite rest
            cases hwrite : fd.registerWrite.write rest true answers with
            | error e =>
                rw [hwrite] at hlater
                obtain ⟨htakes, hwhy⟩ := hlater
                refine ⟨fun h => htakes ?_, ?_⟩
                · rw [hsize]
                  exact (takes_cons_ok.mp h).2.2
                · rcases hwhy with ⟨errno, hmem, heq⟩ | hwhy
                  · exact Or.inl ⟨errno, List.mem_cons_of_mem _ hmem, heq⟩
                  · exact Or.inr hwhy
            | ok later =>
                rw [hwrite] at hlater
                cases later with
                | none =>
                    change answers.length ≤ rest.size at hlater
                    change answers.length + 1 ≤ buffer.size
                    omega
                | some later =>
                    obtain ⟨total, takens, fd'⟩ := later
                    obtain ⟨htotal, hflat, hlen, hfd⟩ := hlater
                    change n + total = buffer.size ∧ _
                    refine ⟨by omega, ?_, ?_, ?_⟩
                    · rw [List.flatten_cons, hflat, hconcat, List.take_append_drop]
                    · change takens.length + 1 ≤ max 1 buffer.size
                      omega
                    · rw [hfd, registerWrite]
                      simp only [List.length_cons, UInt32.ofNat_add]
                      congr 1
                      rw [add_assoc, add_comm 1]
                      rfl

end FileDescriptor

end NetworkLabs
