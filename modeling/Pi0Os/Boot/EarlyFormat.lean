import Pi0Os.Kernel.CString

/-! The formatting of the boot messages: `mini_snprintf` against the items that a format prints. -/

namespace Pi0Os.Boot

open Kernel Byte

inductive Arg where
  | str (s : Buffer)
  | int (num : BitVec 32)
  | unsigned (num : BitVec 32)

/-- The buffer, the characters written to it, and the `va_list`. The sums of a `size_t` do not
wrap: the buffer shares the address space with the code. -/
structure Printer where
  buffer : Buffer
  written : ℕ
  args : List Arg

inductive Exit where
  | full (pr : Printer) -- `goto append_terminator_and_return`
  | panic (e : Panic)

abbrev Printing := Except Exit

/-- The cases of the `switch` on the character behind a percent sign. -/
inductive Conversion where
  | string
  | int
  | unsigned
  | pointer
  | unknown (c : UInt8)

def percent : UInt8 := 0x25

def conversion (c : UInt8) : Conversion :=
  if c = 0x73 then .string else if c = 0x64 then .int else if c = 0x75 then .unsigned
  else if c = 0x70 then .pointer else .unknown c

section Code

variable (bufferSize : ℕ)

/-- `for (uint64_t n = num; n > 0; n /= base) num_digits++` -/
def numDigits (base n : ℕ) : ℕ := if h : 0 < n ∧ 1 < base then numDigits base (n / base) + 1 else 0
termination_by n
decreasing_by exact Nat.div_lt_self h.1 h.2

def digitChar (digit : ℕ) : UInt8 :=
  if digit < 10 then UInt8.ofNat (0x30 + digit) else UInt8.ofNat (0x61 + digit - 10)

/-- The loop that writes the last digit first. -/
def writeDigits (base written : ℕ) : ℕ → ℕ → Buffer → Except Panic Buffer
  | 0, _, buffer => .ok buffer
  | i + 1, num, buffer => do
    let buffer ← buffer.store (written + i) (digitChar (num % base))
    writeDigits base written i (num / base) buffer

def representInteger (pr : Printer) (num base padTo : ℕ) : Except Panic (Bool × Printer) :=
  if num = 0 then
    if bufferSize - 1 ≤ pr.written then .ok (false, pr)
    else do
      let buffer ← pr.buffer.store pr.written 0x30
      return (true, { pr with buffer := buffer, written := pr.written + 1 })
  else
    let digits := max padTo (numDigits base num)
    if bufferSize - 1 ≤ pr.written + digits then .ok (false, pr)
    else do
      let buffer ← writeDigits base pr.written digits num pr.buffer
      return (true, { pr with buffer := buffer, written := pr.written + digits })

/-- `APPEND(c)` -/
def append (c : UInt8) (pr : Printer) : Printing Printer :=
  if bufferSize - 1 ≤ pr.written then .error (.full pr)
  else match pr.buffer.store pr.written c with
    | .ok buffer => .ok { pr with buffer := buffer, written := pr.written + 1 }
    | .error e => .error (.panic e)

/-- `if (!represent_integer(..)) goto append_terminator_and_return` -/
def appendInteger (num base padTo : ℕ) (pr : Printer) : Printing Printer :=
  match representInteger bufferSize pr num base padTo with
  | .ok (true, pr) => .ok pr
  | .ok (false, pr) => .error (.full pr)
  | .error e => .error (.panic e)

def appendString : Buffer → Printer → Printing Printer
  | [], _ => .error (.panic (.undefined "read outside the block"))
  | c :: str, pr => if c = nul then .ok pr else do appendString str (← append bufferSize c pr)

/-- The `switch`; `-num` wraps for the least `int`. -/
def convert (c : Conversion) (pr : Printer) : Printing Printer :=
  match c with
  | .string => match pr.args with
    | .str s :: args => appendString bufferSize s { pr with args := args }
    | _ => .error (.panic (.undefined "va_arg"))
  | .int => match pr.args with
    | .int num :: args => do
      let pr := { pr with args := args }
      if num.slt 0 then
        let pr ← append bufferSize 0x2d pr
        appendInteger bufferSize ((-num).signExtend 64).toNat 10 0 pr
      else appendInteger bufferSize (num.signExtend 64).toNat 10 0 pr
    | _ => .error (.panic (.undefined "va_arg"))
  | .unsigned => match pr.args with
    | .unsigned num :: args => appendInteger bufferSize num.toNat 10 0 { pr with args := args }
    | _ => .error (.panic (.undefined "va_arg"))
  | .pointer => do
    let pr ← append bufferSize 0x30 pr
    let pr ← append bufferSize 0x78 pr
    match pr.args with
    | .unsigned num :: args => appendInteger bufferSize num.toNat 16 8 { pr with args := args }
    | _ => .error (.panic (.undefined "va_arg"))
  | .unknown c => do
    let pr ← append bufferSize percent pr
    append bufferSize c pr

/-- The loop over the format, from the character at `i` on. -/
def formatLoop : Buffer → Printer → Printing Printer
  | [], _ => .error (.panic (.undefined "read outside the block"))
  | c :: format, pr =>
    if c = nul then .ok pr
    else if c ≠ percent then do formatLoop format (← append bufferSize c pr)
    else match format with
      | [] => .error (.panic (.undefined "read outside the block"))
      | c :: format => do formatLoop format (← convert bufferSize (conversion c) pr)

def appendTerminatorAndReturn (pr : Printer) : Except Panic (ℕ × Buffer) := do
  let buffer ← pr.buffer.store pr.written nul
  return (pr.written, buffer)

def miniSnprintf (buffer format : Buffer) (args : List Arg) : Except Panic (ℕ × Buffer) :=
  if bufferSize = 0 then .ok (0, buffer)
  else match formatLoop bufferSize format ⟨buffer, 0, args⟩ with
    | .ok pr => appendTerminatorAndReturn pr
    | .error (.full pr) => appendTerminatorAndReturn pr
    | .error (.panic e) => .error e

end Code

/-- What is printed whole or not at all; behind the digits of a number there has to be room for
one more character. -/
inductive Item where
  | char
  | digits (d : ℕ)

def Item.place (size written : ℕ) : Item → Option ℕ
  | .char => if written + 1 < size then some (written + 1) else none
  | .digits d => if written + d + 1 < size then some (written + d) else none

/-- The characters written once all items are, if they all find room. -/
def placeAll (size : ℕ) (items : List Item) (written : ℕ) : Option ℕ :=
  items.foldlM (fun written item => item.place size written) written

@[simp] lemma placeAll_cons (size : ℕ) (item : Item) (items : List Item) (written : ℕ) :
    placeAll size (item :: items) written = (item.place size written).bind (placeAll size items) := rfl

@[simp] lemma placeAll_singleton (size : ℕ) (item : Item) (written : ℕ) :
    placeAll size [item] written = item.place size written := Option.bind_fun_some _

lemma placeAll_append (size : ℕ) (items items' : List Item) (written : ℕ) :
    placeAll size (items ++ items') written = (placeAll size items written).bind (placeAll size items') :=
  List.foldlM_append

def number (num base padTo : ℕ) : Item := if num = 0 then .char else .digits (max padTo (numDigits base num))

inductive Directive where
  | char (c : UInt8)
  | conversion (c : Conversion)

def directives : CString → List Directive
  | [] => []
  | c :: format =>
    if c ≠ percent then .char c :: directives format
    else match format with
      | [] => []
      | c :: format => .conversion (conversion c) :: directives format

/-- The format, read from the left, ends in a percent sign with nothing behind it. -/
def lonePercent : CString → Bool
  | [] => false
  | c :: format =>
    if c ≠ percent then lonePercent format
    else match format with
      | [] => true
      | _ :: format => lonePercent format

/-- What a directive prints and the arguments behind it, if the arguments match. -/
def Directive.items : Directive → List Arg → Option (List Item × List Arg)
  | .conversion .string, .str s :: args =>
    match s.strlen with
    | .ok n => some (List.replicate n .char, args)
    | .error _ => none
  | .conversion .int, .int num :: args =>
    some (if num.slt 0 then [.char, number ((-num).signExtend 64).toNat 10 0]
      else [number (num.signExtend 64).toNat 10 0], args)
  | .conversion .unsigned, .unsigned num :: args => some ([number num.toNat 10 0], args)
  | .conversion .pointer, .unsigned num :: args => some ([.char, .char, number num.toNat 16 8], args)
  | .conversion (.unknown _), args => some ([.char, .char], args)
  | .char _, args => some ([.char], args)
  | _, _ => none

/-- What the format prints, if the arguments match it. -/
def formatItems : List Directive → List Arg → Option (List Item)
  | [], _ => some []
  | d :: ds, args => do
    let (items, args) ← d.items args
    return items ++ (← formatItems ds args)

section Printing

/-- The printer comes to `next` characters, or jumps out where there is no room. -/
def Prints (size : ℕ) (next : Option ℕ) (P : List Arg → Prop) : Printing Printer → Prop
  | .ok pr => next = some pr.written ∧ pr.written < size ∧ pr.buffer.length = size ∧ P pr.args
  | .error (.full pr) => next = none ∧ pr.written < size ∧ pr.buffer.length = size
  | .error (.panic _) => False

variable {size : ℕ} {pr : Printer} {args : List Arg} {P Q : List Arg → Prop}

lemma Prints.cases {x : Printing Printer} {next : Option ℕ} (h : Prints size next P x) :
    (∃ pr, x = .ok pr ∧ next = some pr.written ∧ pr.written < size ∧ pr.buffer.length = size ∧ P pr.args) ∨
    ∃ pr, x = .error (.full pr) ∧ next = none ∧ pr.written < size ∧ pr.buffer.length = size := by
  rcases x with (pr | e) | pr
  · exact Or.inr ⟨pr, rfl, h⟩
  · exact h.elim
  · exact Or.inl ⟨pr, rfl, h⟩

lemma Prints.bind {x : Printing Printer} {f : Printer → Printing Printer} {next : Option ℕ} {g : ℕ → Option ℕ}
    (hx : Prints size next P x)
    (hf : ∀ pr : Printer, pr.written < size → pr.buffer.length = size → P pr.args →
      Prints size (g pr.written) Q (f pr)) : Prints size (next.bind g) Q (x >>= f) := by
  rcases hx.cases with ⟨pr, rfl, rfl, hw, hb, ha⟩ | ⟨pr, rfl, rfl, hw, hb⟩
  · exact hf pr hw hb ha
  · exact ⟨rfl, hw, hb⟩

lemma store_ok {buf : Buffer} {i : ℕ} (c : UInt8) (h : i < buf.length) : buf.store i c = .ok (buf.set i c) := if_pos h

lemma append_prints (pr : Printer) (hw : pr.written < size) (hb : pr.buffer.length = size) (c : UInt8) :
    Prints size (Item.char.place size pr.written) (· = pr.args) (append size c pr) := by
  rw [append, Item.place]
  by_cases hfull : size - 1 ≤ pr.written
  · rw [if_pos hfull, if_neg (by omega)]
    exact ⟨rfl, hw, hb⟩
  · have hroom : pr.written + 1 < size := by omega
    rw [if_neg hfull, store_ok c (by omega), if_pos hroom]
    exact ⟨rfl, hroom, by rw [List.length_set, hb], rfl⟩

lemma writeDigits_ok (base written : ℕ) : ∀ (i num : ℕ) {buffer : Buffer}, written + i ≤ buffer.length →
    ∃ buffer', writeDigits base written i num buffer = .ok buffer' ∧ buffer'.length = buffer.length := by
  intro i
  induction i with
  | zero => exact fun _ {buffer} _ => ⟨buffer, rfl, rfl⟩
  | succ i ih =>
    intro num buffer h
    have hset : (buffer.set (written + i) (digitChar (num % base))).length = buffer.length := List.length_set
    obtain ⟨buffer', hrun, hlen⟩ := ih (num / base) (hset ▸ Nat.le_of_succ_le h)
    refine ⟨buffer', ?_, hlen.trans hset⟩
    rw [writeDigits, store_ok _ (show written + i < buffer.length by omega), ok_bind, hrun]

lemma appendInteger_prints (pr : Printer) (hw : pr.written < size) (hb : pr.buffer.length = size) (num base padTo : ℕ) :
    Prints size ((number num base padTo).place size pr.written) (· = pr.args)
      (appendInteger size num base padTo pr) := by
  rw [appendInteger, representInteger, number]
  by_cases hnum : num = 0
  · rw [if_pos hnum, if_pos hnum, Item.place]
    by_cases hfull : size - 1 ≤ pr.written
    · rw [if_pos hfull, if_neg (by omega)]
      exact ⟨rfl, hw, hb⟩
    · have hroom : pr.written + 1 < size := by omega
      rw [if_neg hfull, store_ok _ (by omega), if_pos hroom]
      exact ⟨rfl, hroom, by rw [List.length_set, hb], rfl⟩
  · rw [if_neg hnum, if_neg hnum]
    generalize max padTo (numDigits base num) = digits
    dsimp only [Item.place]
    by_cases hfull : size - 1 ≤ pr.written + digits
    · rw [if_pos hfull, if_neg (by omega)]
      exact ⟨rfl, hw, hb⟩
    · obtain ⟨buffer, hrun, hlen⟩ := writeDigits_ok base pr.written digits num (hb ▸ show _ ≤ size by omega)
      rw [if_neg hfull, hrun, if_pos (by omega)]
      exact ⟨rfl, show pr.written + digits < size by omega, hlen.trans hb, rfl⟩

lemma appendString_prints {str : CString} (hstr : nul ∉ str) (rest : Buffer) : ∀ pr : Printer,
    pr.written < size → pr.buffer.length = size →
    Prints size (placeAll size (List.replicate str.length .char) pr.written) (· = pr.args)
      (appendString size (str ++ nul :: rest) pr) := by
  induction str with
  | nil => exact fun _ hw hb => ⟨rfl, hw, hb, rfl⟩
  | cons c str ih =>
    intro pr hw hb
    have hc : c ≠ nul := fun h => hstr (h ▸ List.mem_cons_self)
    rw [List.cons_append, appendString, if_neg hc]
    refine (append_prints _ hw hb c).bind fun pr' hw' hb' ha' => ?_
    rw [← ha']
    exact ih (fun h => hstr (List.mem_cons_of_mem c h)) pr' hw' hb'

def printDirective (size : ℕ) : Directive → Printer → Printing Printer
  | .char c, pr => append size c pr
  | .conversion c, pr => convert size c pr

lemma convert_int_prints {num : BitVec 32} (h : pr.args = .int num :: args) (hw : pr.written < size)
    (hb : pr.buffer.length = size) :
    Prints size (placeAll size (if num.slt 0 then [.char, number ((-num).signExtend 64).toNat 10 0]
      else [number (num.signExtend 64).toNat 10 0]) pr.written) (· = args) (convert size .int pr) := by
  rw [convert, h]
  dsimp only
  split_ifs
  · rw [placeAll_cons]
    refine (append_prints { pr with args := args } hw hb 0x2d).bind fun pr' hw' hb' ha' => ?_
    rw [placeAll_singleton, ← show pr'.args = args from ha']
    exact appendInteger_prints _ hw' hb' ..
  · rw [placeAll_singleton]
    exact appendInteger_prints { pr with args := args } hw hb ..

lemma convert_pointer_prints {num : BitVec 32} (h : pr.args = .unsigned num :: args) (hw : pr.written < size)
    (hb : pr.buffer.length = size) :
    Prints size (placeAll size [.char, .char, number num.toNat 16 8] pr.written) (· = args)
      (convert size .pointer pr) := by
  rw [convert, placeAll_cons]
  refine (append_prints _ hw hb 0x30).bind fun pr₁ hw₁ hb₁ ha₁ => ?_
  rw [placeAll_cons]
  refine (append_prints _ hw₁ hb₁ 0x78).bind fun pr₂ hw₂ hb₂ ha₂ => ?_
  rw [placeAll_singleton, ha₂, ha₁, h]
  exact appendInteger_prints { pr₂ with args := args } hw₂ hb₂ ..

lemma convert_unknown_prints (c : UInt8) (hw : pr.written < size) (hb : pr.buffer.length = size) :
    Prints size (placeAll size [.char, .char] pr.written) (· = pr.args) (convert size (.unknown c) pr) := by
  rw [placeAll_cons]
  refine (append_prints _ hw hb percent).bind fun pr' hw' hb' ha' => ?_
  rw [placeAll_singleton, ← ha']
  exact append_prints _ hw' hb' c

lemma printDirective_prints {d : Directive} {items : List Item} (hw : pr.written < size) (hb : pr.buffer.length = size)
    (h : d.items pr.args = some (items, args)) :
    Prints size (placeAll size items pr.written) (· = args) (printDirective size d pr) := by
  obtain ⟨buffer, written, args₀⟩ := pr
  cases d with
  | char c =>
    cases h
    rw [placeAll_singleton]
    exact append_prints _ hw hb c
  | conversion c =>
    cases c with
    | string =>
      match args₀ with
      | .str s :: _ =>
        cases hlen : s.strlen with
        | error e =>
          rw [Directive.items, hlen] at h
          cases h
        | ok n =>
          rw [Directive.items, hlen] at h
          cases h
          obtain ⟨str, rest, rfl, hstr, rfl⟩ := Buffer.exists_of_strlen hlen
          exact appendString_prints hstr rest ⟨buffer, written, _⟩ hw hb
    | int =>
      match args₀ with
      | .int num :: _ =>
        cases h
        exact convert_int_prints rfl hw hb
    | unsigned =>
      match args₀ with
      | .unsigned num :: _ =>
        cases h
        rw [placeAll_singleton]
        exact appendInteger_prints ⟨buffer, written, args⟩ hw hb ..
    | pointer =>
      match args₀ with
      | .unsigned num :: _ =>
        cases h
        exact convert_pointer_prints rfl hw hb
    | unknown c =>
      cases h
      exact convert_unknown_prints c hw hb

/-- The loop prints one directive after the other, and is left with the end of the format. -/
lemma formatLoop_eq {format : CString} (hfmt : nul ∉ format) : ∀ pr : Printer,
    formatLoop size (format ++ [nul]) pr = (directives format).foldlM (fun pr d => printDirective size d pr) pr >>=
      formatLoop size (if lonePercent format then [percent, nul] else [nul]) := by
  fun_induction directives format with
  | case1 => exact fun pr => rfl
  | case2 c format hc ih =>
    intro pr
    have hne : c ≠ nul := fun h => hfmt (h ▸ List.mem_cons_self)
    rw [List.cons_append, formatLoop.eq_def, lonePercent.eq_def, List.foldlM_cons, bind_assoc]
    simp only [if_neg hne, if_pos hc]
    exact congrArg _ (funext (ih fun h => hfmt (List.mem_cons_of_mem c h)))
  | case3 c hc =>
    intro pr
    rw [not_not] at hc
    subst hc
    rfl
  | case4 c hc d format ih =>
    intro pr
    rw [not_not] at hc
    subst hc
    rw [lonePercent, List.foldlM_cons, bind_assoc]
    exact congrArg _ (funext (ih fun h => hfmt (List.mem_cons_of_mem _ (List.mem_cons_of_mem d h))))

lemma foldlM_prints {ds : List Directive} {items : List Item} : ∀ pr : Printer, pr.written < size →
    pr.buffer.length = size → formatItems ds pr.args = some items →
    Prints size (placeAll size items pr.written) (fun _ => True)
      (ds.foldlM (fun pr d => printDirective size d pr) pr) := by
  induction ds generalizing items with
  | nil =>
    intro pr hw hb h
    cases h
    exact ⟨rfl, hw, hb, trivial⟩
  | cons d ds ih =>
    intro pr hw hb h
    obtain ⟨⟨items₁, args₁⟩, h₁, h⟩ := Option.bind_eq_some_iff.mp h
    obtain ⟨items₂, h₂, h⟩ := Option.bind_eq_some_iff.mp h
    cases h
    rw [placeAll_append]
    refine (printDirective_prints hw hb h₁).bind fun pr' hw' hb' ha' => ih pr' hw' hb' ?_
    rw [ha']
    exact h₂

end Printing

/-- The result is a position in the buffer, and a NUL stands there; nothing was read or written out of bounds. -/
def Bounded (size : ℕ) (r : Except Panic (ℕ × Buffer)) : Prop :=
  ∃ written buffer, r = .ok (written, buffer) ∧ written < size ∧ buffer.length = size ∧ buffer[written]? = some nul

section Bounds

variable {size : ℕ} {pr : Printer}

lemma appendTerminator_bounded (hw : pr.written < size) (hb : pr.buffer.length = size) :
    Bounded size (appendTerminatorAndReturn pr) := by
  refine ⟨pr.written, pr.buffer.set pr.written nul, ?_, hw, by rw [List.length_set, hb], ?_⟩
  · rw [appendTerminatorAndReturn, store_ok nul (hb ▸ hw)]
    rfl
  · exact List.getElem?_set_self (hb ▸ hw)

/-- How `mini_snprintf` ends after its loop. -/
def finish : Printing Printer → Except Panic (ℕ × Buffer)
  | .ok pr => appendTerminatorAndReturn pr
  | .error (.full pr) => appendTerminatorAndReturn pr
  | .error (.panic e) => .error e

lemma miniSnprintf_eq_finish (buffer format : Buffer) (args : List Arg) (h : 0 < size) :
    miniSnprintf size buffer format args = finish (formatLoop size format ⟨buffer, 0, args⟩) := by
  rw [miniSnprintf, if_neg h.ne']
  rcases formatLoop size format ⟨buffer, 0, args⟩ with (pr | e) | pr <;> rfl

lemma placeAll_two (written : ℕ) :
    placeAll size [.char, .char] written = if written + 2 < size then some (written + 2) else none := by
  rw [placeAll_cons, Item.place]
  by_cases h₁ : written + 1 < size
  · rw [if_pos h₁, Option.bind_some, placeAll_singleton, Item.place]
  · rw [if_neg h₁, Option.bind_none, if_neg (by omega)]

/-- A lone percent sign is printed with the NUL behind it where both find room, and then the loop
reads on behind the NUL. -/
lemma finish_percent (hw : pr.written < size) (hb : pr.buffer.length = size) :
    Bounded size (finish (formatLoop size [percent, nul] pr)) ↔ ¬ pr.written + 2 < size := by
  have hrun : formatLoop size [percent, nul] pr = convert size (.unknown nul) pr >>= formatLoop size [] := rfl
  rw [hrun]
  rcases (convert_unknown_prints nul hw hb).cases with ⟨pr', hx, hplace, -⟩ | ⟨pr', hx, hplace, hw', hb'⟩
  · rw [placeAll_two] at hplace
    rw [hx]
    constructor
    · rintro ⟨_, _, ⟨⟩, -⟩
    · intro hfull
      rw [if_neg hfull] at hplace
      cases hplace
  · rw [placeAll_two] at hplace
    rw [hx]
    refine ⟨fun _ hroom => ?_, fun _ => appendTerminator_bounded hw' hb'⟩
    rw [if_pos hroom] at hplace
    cases hplace

theorem miniSnprintf_bounded_iff (buffer : Buffer) (format : CString) (args : List Arg) {items : List Item}
    (hfmt : nul ∉ format) (hsize : 0 < buffer.length)
    (hargs : formatItems (directives format) args = some items) :
    Bounded buffer.length (miniSnprintf buffer.length buffer (format ++ [nul]) args) ↔
      ¬ (lonePercent format ∧ ∃ written, placeAll buffer.length items 0 = some written ∧
        written + 2 < buffer.length) := by
  rw [miniSnprintf_eq_finish _ _ _ hsize, formatLoop_eq hfmt]
  rcases (foldlM_prints ⟨buffer, 0, args⟩ hsize rfl hargs).cases with
    ⟨pr, hx, hplace, hw, hb, -⟩ | ⟨pr, hx, hplace, hw, hb⟩
  · rw [hx, hplace]
    simp only [Option.some.injEq, exists_eq_left']
    cases lonePercent format with
    | true => exact (finish_percent hw hb).trans (by simp)
    | false => exact ⟨fun _ h => Bool.noConfusion h.1, fun _ => appendTerminator_bounded hw hb⟩
  · rw [hx, hplace]
    refine ⟨fun _ h => ?_, fun _ => appendTerminator_bounded hw hb⟩
    obtain ⟨-, written, hnone, -⟩ := h
    cases hnone

-- `"RAM: %p (%uMB)\n"`
def ramFormat : CString := [0x52, 0x41, 0x4d, 0x3a, 0x20, 0x25, 0x70, 0x20, 0x28, 0x25, 0x75, 0x4d, 0x42, 0x29, 0x0a]

theorem miniSnprintf_bounded_iff_ram : Bounded (List.replicate 1024 (0xff : UInt8)).length
    (miniSnprintf (List.replicate 1024 (0xff : UInt8)).length (List.replicate 1024 0xff) (ramFormat ++ [nul])
      [.unsigned 0, .unsigned 512]) := by
  have hsize : 0 < (List.replicate 1024 (0xff : UInt8)).length := by
    rw [List.length_replicate]
    decide
  exact (miniSnprintf_bounded_iff (List.replicate 1024 0xff) ramFormat [.unsigned 0, .unsigned 512] (by decide) hsize
    rfl).mpr fun hlone => Bool.noConfusion hlone.1

/-- The format `"%"` into eight bytes. -/
theorem miniSnprintf_lonePercent :
    ¬ Bounded 8 (miniSnprintf 8 (List.replicate 8 0) ([percent] ++ [nul]) []) := by
  rintro ⟨_, _, ⟨⟩, -⟩

end Bounds

end Pi0Os.Boot
