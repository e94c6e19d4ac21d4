namespace ContainerRecipe.Text

-- The bytes that may follow a first byte: one range for each byte of the character after the first. The first
-- range is narrow where a shorter form, a surrogate or a number beyond Unicode has to be kept out.
def followers? (first : Nat) : Option (List (Nat × Nat)) :=
  let any : Nat × Nat := (0x80, 0xBF)
  if first < 0x80 then some []
  else if first < 0xC2 then none
  else if first < 0xE0 then some [any]
  else if first = 0xE0 then some [(0xA0, 0xBF), any]
  else if first = 0xED then some [(0x80, 0x9F), any]
  else if first < 0xF0 then some [any, any]
  else if first = 0xF0 then some [(0x90, 0xBF), any, any]
  else if first < 0xF4 then some [any, any, any]
  else if first = 0xF4 then some [(0x80, 0x8F), any, any]
  else none

def firstBits (first : Nat) : Nat :=
  if first < 0x80 then first
  else if first < 0xE0 then first % 0x20
  else if first < 0xF0 then first % 0x10
  else first % 0x08

def replacement : Char := '\uFFFD'

structure Mending where
  read : List Char := []
  missing : List (Nat × Nat) := []
  value : Nat := 0

namespace Mending

def start (m : Mending) (byte : Nat) : Mending :=
  match followers? byte with
  | none => { read := replacement :: m.read }
  | some [] => { read := Char.ofNat byte :: m.read }
  | some missing => { m with missing, value := firstBits byte }

def step (m : Mending) (byte : Nat) : Mending :=
  match m.missing with
  | [] => m.start byte
  | (low, high) :: missing =>
    if low ≤ byte && byte ≤ high then
      let value := m.value * 0x40 + byte % 0x40
      if missing.isEmpty then { read := Char.ofNat value :: m.read } else { m with missing, value }
    else Mending.start { read := replacement :: m.read } byte

def finish (m : Mending) : List Char :=
  (if m.missing.isEmpty then m.read else replacement :: m.read).reverse

end Mending

def mended (bytes : ByteArray) : String :=
  String.ofList (bytes.data.toList.foldl (fun m byte => m.step byte.toNat) ({} : Mending)).finish

end ContainerRecipe.Text
