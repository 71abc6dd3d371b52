import Mathlib.Data.List.Basic
import Simta.Spool

/-!
# Base64

`base64_e` and `base64_d` with their tables, as `base64.c` has them, and the round trip.

* `base64E`, `base64D` — the encoder and the decoder; each gives the bytes that it writes, first to last;
* `etabHigh6_entries` and its siblings — what a table of the decoder makes of a character of the encoder;
* `base64_roundTrip` — the text is of the size, from the alphabet, and decodes to the bytes.
-/

set_option autoImplicit false

namespace Simta

/-! ## The tables -/

def etabHigh6 : List Char := [
  'A', 'A', 'A', 'A', 'B', 'B', 'B', 'B', 'C', 'C', 'C', 'C', 'D', 'D', 'D', 'D',
  'E', 'E', 'E', 'E', 'F', 'F', 'F', 'F', 'G', 'G', 'G', 'G', 'H', 'H', 'H', 'H',
  'I', 'I', 'I', 'I', 'J', 'J', 'J', 'J', 'K', 'K', 'K', 'K', 'L', 'L', 'L', 'L',
  'M', 'M', 'M', 'M', 'N', 'N', 'N', 'N', 'O', 'O', 'O', 'O', 'P', 'P', 'P', 'P',
  'Q', 'Q', 'Q', 'Q', 'R', 'R', 'R', 'R', 'S', 'S', 'S', 'S', 'T', 'T', 'T', 'T',
  'U', 'U', 'U', 'U', 'V', 'V', 'V', 'V', 'W', 'W', 'W', 'W', 'X', 'X', 'X', 'X',
  'Y', 'Y', 'Y', 'Y', 'Z', 'Z', 'Z', 'Z', 'a', 'a', 'a', 'a', 'b', 'b', 'b', 'b',
  'c', 'c', 'c', 'c', 'd', 'd', 'd', 'd', 'e', 'e', 'e', 'e', 'f', 'f', 'f', 'f',
  'g', 'g', 'g', 'g', 'h', 'h', 'h', 'h', 'i', 'i', 'i', 'i', 'j', 'j', 'j', 'j',
  'k', 'k', 'k', 'k', 'l', 'l', 'l', 'l', 'm', 'm', 'm', 'm', 'n', 'n', 'n', 'n',
  'o', 'o', 'o', 'o', 'p', 'p', 'p', 'p', 'q', 'q', 'q', 'q', 'r', 'r', 'r', 'r',
  's', 's', 's', 's', 't', 't', 't', 't', 'u', 'u', 'u', 'u', 'v', 'v', 'v', 'v',
  'w', 'w', 'w', 'w', 'x', 'x', 'x', 'x', 'y', 'y', 'y', 'y', 'z', 'z', 'z', 'z',
  '0', '0', '0', '0', '1', '1', '1', '1', '2', '2', '2', '2', '3', '3', '3', '3',
  '4', '4', '4', '4', '5', '5', '5', '5', '6', '6', '6', '6', '7', '7', '7', '7',
  '8', '8', '8', '8', '9', '9', '9', '9', '+', '+', '+', '+', '/', '/', '/', '/']

def etabHigh24 : List Char := [
  'A', 'Q', 'g', 'w', 'A', 'Q', 'g', 'w', 'A', 'Q', 'g', 'w', 'A', 'Q', 'g', 'w',
  'B', 'R', 'h', 'x', 'B', 'R', 'h', 'x', 'B', 'R', 'h', 'x', 'B', 'R', 'h', 'x',
  'C', 'S', 'i', 'y', 'C', 'S', 'i', 'y', 'C', 'S', 'i', 'y', 'C', 'S', 'i', 'y',
  'D', 'T', 'j', 'z', 'D', 'T', 'j', 'z', 'D', 'T', 'j', 'z', 'D', 'T', 'j', 'z',
  'E', 'U', 'k', '0', 'E', 'U', 'k', '0', 'E', 'U', 'k', '0', 'E', 'U', 'k', '0',
  'F', 'V', 'l', '1', 'F', 'V', 'l', '1', 'F', 'V', 'l', '1', 'F', 'V', 'l', '1',
  'G', 'W', 'm', '2', 'G', 'W', 'm', '2', 'G', 'W', 'm', '2', 'G', 'W', 'm', '2',
  'H', 'X', 'n', '3', 'H', 'X', 'n', '3', 'H', 'X', 'n', '3', 'H', 'X', 'n', '3',
  'I', 'Y', 'o', '4', 'I', 'Y', 'o', '4', 'I', 'Y', 'o', '4', 'I', 'Y', 'o', '4',
  'J', 'Z', 'p', '5', 'J', 'Z', 'p', '5', 'J', 'Z', 'p', '5', 'J', 'Z', 'p', '5',
  'K', 'a', 'q', '6', 'K', 'a', 'q', '6', 'K', 'a', 'q', '6', 'K', 'a', 'q', '6',
  'L', 'b', 'r', '7', 'L', 'b', 'r', '7', 'L', 'b', 'r', '7', 'L', 'b', 'r', '7',
  'M', 'c', 's', '8', 'M', 'c', 's', '8', 'M', 'c', 's', '8', 'M', 'c', 's', '8',
  'N', 'd', 't', '9', 'N', 'd', 't', '9', 'N', 'd', 't', '9', 'N', 'd', 't', '9',
  'O', 'e', 'u', '+', 'O', 'e', 'u', '+', 'O', 'e', 'u', '+', 'O', 'e', 'u', '+',
  'P', 'f', 'v', '/', 'P', 'f', 'v', '/', 'P', 'f', 'v', '/', 'P', 'f', 'v', '/']

def etabLow42 : List Char := [
  'A', 'E', 'I', 'M', 'Q', 'U', 'Y', 'c', 'g', 'k', 'o', 's', 'w', '0', '4', '8',
  'A', 'E', 'I', 'M', 'Q', 'U', 'Y', 'c', 'g', 'k', 'o', 's', 'w', '0', '4', '8',
  'A', 'E', 'I', 'M', 'Q', 'U', 'Y', 'c', 'g', 'k', 'o', 's', 'w', '0', '4', '8',
  'A', 'E', 'I', 'M', 'Q', 'U', 'Y', 'c', 'g', 'k', 'o', 's', 'w', '0', '4', '8',
  'B', 'F', 'J', 'N', 'R', 'V', 'Z', 'd', 'h', 'l', 'p', 't', 'x', '1', '5', '9',
  'B', 'F', 'J', 'N', 'R', 'V', 'Z', 'd', 'h', 'l', 'p', 't', 'x', '1', '5', '9',
  'B', 'F', 'J', 'N', 'R', 'V', 'Z', 'd', 'h', 'l', 'p', 't', 'x', '1', '5', '9',
  'B', 'F', 'J', 'N', 'R', 'V', 'Z', 'd', 'h', 'l', 'p', 't', 'x', '1', '5', '9',
  'C', 'G', 'K', 'O', 'S', 'W', 'a', 'e', 'i', 'm', 'q', 'u', 'y', '2', '6', '+',
  'C', 'G', 'K', 'O', 'S', 'W', 'a', 'e', 'i', 'm', 'q', 'u', 'y', '2', '6', '+',
  'C', 'G', 'K', 'O', 'S', 'W', 'a', 'e', 'i', 'm', 'q', 'u', 'y', '2', '6', '+',
  'C', 'G', 'K', 'O', 'S', 'W', 'a', 'e', 'i', 'm', 'q', 'u', 'y', '2', '6', '+',
  'D', 'H', 'L', 'P', 'T', 'X', 'b', 'f', 'j', 'n', 'r', 'v', 'z', '3', '7', '/',
  'D', 'H', 'L', 'P', 'T', 'X', 'b', 'f', 'j', 'n', 'r', 'v', 'z', '3', '7', '/',
  'D', 'H', 'L', 'P', 'T', 'X', 'b', 'f', 'j', 'n', 'r', 'v', 'z', '3', '7', '/',
  'D', 'H', 'L', 'P', 'T', 'X', 'b', 'f', 'j', 'n', 'r', 'v', 'z', '3', '7', '/']

def etabLow6 : List Char := [
  'A', 'B', 'C', 'D', 'E', 'F', 'G', 'H', 'I', 'J', 'K', 'L', 'M', 'N', 'O', 'P',
  'Q', 'R', 'S', 'T', 'U', 'V', 'W', 'X', 'Y', 'Z', 'a', 'b', 'c', 'd', 'e', 'f',
  'g', 'h', 'i', 'j', 'k', 'l', 'm', 'n', 'o', 'p', 'q', 'r', 's', 't', 'u', 'v',
  'w', 'x', 'y', 'z', '0', '1', '2', '3', '4', '5', '6', '7', '8', '9', '+', '/',
  'A', 'B', 'C', 'D', 'E', 'F', 'G', 'H', 'I', 'J', 'K', 'L', 'M', 'N', 'O', 'P',
  'Q', 'R', 'S', 'T', 'U', 'V', 'W', 'X', 'Y', 'Z', 'a', 'b', 'c', 'd', 'e', 'f',
  'g', 'h', 'i', 'j', 'k', 'l', 'm', 'n', 'o', 'p', 'q', 'r', 's', 't', 'u', 'v',
  'w', 'x', 'y', 'z', '0', '1', '2', '3', '4', '5', '6', '7', '8', '9', '+', '/',
  'A', 'B', 'C', 'D', 'E', 'F', 'G', 'H', 'I', 'J', 'K', 'L', 'M', 'N', 'O', 'P',
  'Q', 'R', 'S', 'T', 'U', 'V', 'W', 'X', 'Y', 'Z', 'a', 'b', 'c', 'd', 'e', 'f',
  'g', 'h', 'i', 'j', 'k', 'l', 'm', 'n', 'o', 'p', 'q', 'r', 's', 't', 'u', 'v',
  'w', 'x', 'y', 'z', '0', '1', '2', '3', '4', '5', '6', '7', '8', '9', '+', '/',
  'A', 'B', 'C', 'D', 'E', 'F', 'G', 'H', 'I', 'J', 'K', 'L', 'M', 'N', 'O', 'P',
  'Q', 'R', 'S', 'T', 'U', 'V', 'W', 'X', 'Y', 'Z', 'a', 'b', 'c', 'd', 'e', 'f',
  'g', 'h', 'i', 'j', 'k', 'l', 'm', 'n', 'o', 'p', 'q', 'r', 's', 't', 'u', 'v',
  'w', 'x', 'y', 'z', '0', '1', '2', '3', '4', '5', '6', '7', '8', '9', '+', '/']

def dtabHigh6 : List UInt8 := [
  0x00, 0x00, 0x00, 0x00, 0x00, 0x00, 0x00, 0x00, 0x00, 0x00, 0x00, 0x00, 0x00, 0x00, 0x00, 0x00,
  0x00, 0x00, 0x00, 0x00, 0x00, 0x00, 0x00, 0x00, 0x00, 0x00, 0x00, 0x00, 0x00, 0x00, 0x00, 0x00,
  0x00, 0x00, 0x00, 0x00, 0x00, 0x00, 0x00, 0x00, 0x00, 0x00, 0x00, 0xf8, 0x00, 0x00, 0x00, 0xfc,
  0xd0, 0xd4, 0xd8, 0xdc, 0xe0, 0xe4, 0xe8, 0xec, 0xf0, 0xf4, 0x00, 0x00, 0x00, 0x00, 0x00, 0x00,
  0x00, 0x00, 0x04, 0x08, 0x0c, 0x10, 0x14, 0x18, 0x1c, 0x20, 0x24, 0x28, 0x2c, 0x30, 0x34, 0x38,
  0x3c, 0x40, 0x44, 0x48, 0x4c, 0x50, 0x54, 0x58, 0x5c, 0x60, 0x64, 0x00, 0x00, 0x00, 0x00, 0x00,
  0x00, 0x68, 0x6c, 0x70, 0x74, 0x78, 0x7c, 0x80, 0x84, 0x88, 0x8c, 0x90, 0x94, 0x98, 0x9c, 0xa0,
  0xa4, 0xa8, 0xac, 0xb0, 0xb4, 0xb8, 0xbc, 0xc0, 0xc4, 0xc8, 0xcc, 0x00, 0x00, 0x00, 0x00, 0x00,
  0x00, 0x00, 0x00, 0x00, 0x00, 0x00, 0x00, 0x00, 0x00, 0x00, 0x00, 0x00, 0x00, 0x00, 0x00, 0x00,
  0x00, 0x00, 0x00, 0x00, 0x00, 0x00, 0x00, 0x00, 0x00, 0x00, 0x00, 0x00, 0x00, 0x00, 0x00, 0x00,
  0x00, 0x00, 0x00, 0x00, 0x00, 0x00, 0x00, 0x00, 0x00, 0x00, 0x00, 0x00, 0x00, 0x00, 0x00, 0x00,
  0x00, 0x00, 0x00, 0x00, 0x00, 0x00, 0x00, 0x00, 0x00, 0x00, 0x00, 0x00, 0x00, 0x00, 0x00, 0x00,
  0x00, 0x00, 0x00, 0x00, 0x00, 0x00, 0x00, 0x00, 0x00, 0x00, 0x00, 0x00, 0x00, 0x00, 0x00, 0x00,
  0x00, 0x00, 0x00, 0x00, 0x00, 0x00, 0x00, 0x00, 0x00, 0x00, 0x00, 0x00, 0x00, 0x00, 0x00, 0x00,
  0x00, 0x00, 0x00, 0x00, 0x00, 0x00, 0x00, 0x00, 0x00, 0x00, 0x00, 0x00, 0x00, 0x00, 0x00, 0x00,
  0x00, 0x00, 0x00, 0x00, 0x00, 0x00, 0x00, 0x00, 0x00, 0x00, 0x00, 0x00, 0x00, 0x00, 0x00, 0x00]

def dtabHigh2 : List UInt8 := [
  0x00, 0x00, 0x00, 0x00, 0x00, 0x00, 0x00, 0x00, 0x00, 0x00, 0x00, 0x00, 0x00, 0x00, 0x00, 0x00,
  0x00, 0x00, 0x00, 0x00, 0x00, 0x00, 0x00, 0x00, 0x00, 0x00, 0x00, 0x00, 0x00, 0x00, 0x00, 0x00,
  0x00, 0x00, 0x00, 0x00, 0x00, 0x00, 0x00, 0x00, 0x00, 0x00, 0x00, 0x03, 0x00, 0x00, 0x00, 0x03,
  0x03, 0x03, 0x03, 0x03, 0x03, 0x03, 0x03, 0x03, 0x03, 0x03, 0x00, 0x00, 0x00, 0x00, 0x00, 0x00,
  0x00, 0x00, 0x00, 0x00, 0x00, 0x00, 0x00, 0x00, 0x00, 0x00, 0x00, 0x00, 0x00, 0x00, 0x00, 0x00,
  0x00, 0x01, 0x01, 0x01, 0x01, 0x01, 0x01, 0x01, 0x01, 0x01, 0x01, 0x00, 0x00, 0x00, 0x00, 0x00,
  0x00, 0x01, 0x01, 0x01, 0x01, 0x01, 0x01, 0x02, 0x02, 0x02, 0x02, 0x02, 0x02, 0x02, 0x02, 0x02,
  0x02, 0x02, 0x02, 0x02, 0x02, 0x02, 0x02, 0x03, 0x03, 0x03, 0x03, 0x00, 0x00, 0x00, 0x00, 0x00,
  0x00, 0x00, 0x00, 0x00, 0x00, 0x00, 0x00, 0x00, 0x00, 0x00, 0x00, 0x00, 0x00, 0x00, 0x00, 0x00,
  0x00, 0x00, 0x00, 0x00, 0x00, 0x00, 0x00, 0x00, 0x00, 0x00, 0x00, 0x00, 0x00, 0x00, 0x00, 0x00,
  0x00, 0x00, 0x00, 0x00, 0x00, 0x00, 0x00, 0x00, 0x00, 0x00, 0x00, 0x00, 0x00, 0x00, 0x00, 0x00,
  0x00, 0x00, 0x00, 0x00, 0x00, 0x00, 0x00, 0x00, 0x00, 0x00, 0x00, 0x00, 0x00, 0x00, 0x00, 0x00,
  0x00, 0x00, 0x00, 0x00, 0x00, 0x00, 0x00, 0x00, 0x00, 0x00, 0x00, 0x00, 0x00, 0x00, 0x00, 0x00,
  0x00, 0x00, 0x00, 0x00, 0x00, 0x00, 0x00, 0x00, 0x00, 0x00, 0x00, 0x00, 0x00, 0x00, 0x00, 0x00,
  0x00, 0x00, 0x00, 0x00, 0x00, 0x00, 0x00, 0x00, 0x00, 0x00, 0x00, 0x00, 0x00, 0x00, 0x00, 0x00,
  0x00, 0x00, 0x00, 0x00, 0x00, 0x00, 0x00, 0x00, 0x00, 0x00, 0x00, 0x00, 0x00, 0x00, 0x00, 0x00]

def dtabHigh4 : List UInt8 := [
  0x00, 0x00, 0x00, 0x00, 0x00, 0x00, 0x00, 0x00, 0x00, 0x00, 0x00, 0x00, 0x00, 0x00, 0x00, 0x00,
  0x00, 0x00, 0x00, 0x00, 0x00, 0x00, 0x00, 0x00, 0x00, 0x00, 0x00, 0x00, 0x00, 0x00, 0x00, 0x00,
  0x00, 0x00, 0x00, 0x00, 0x00, 0x00, 0x00, 0x00, 0x00, 0x00, 0x00, 0xe0, 0x00, 0x00, 0x00, 0xf0,
  0x40, 0x50, 0x60, 0x70, 0x80, 0x90, 0xa0, 0xb0, 0xc0, 0xd0, 0x00, 0x00, 0x00, 0x00, 0x00, 0x00,
  0x00, 0x00, 0x10, 0x20, 0x30, 0x40, 0x50, 0x60, 0x70, 0x80, 0x90, 0xa0, 0xb0, 0xc0, 0xd0, 0xe0,
  0xf0, 0x00, 0x10, 0x20, 0x30, 0x40, 0x50, 0x60, 0x70, 0x80, 0x90, 0x00, 0x00, 0x00, 0x00, 0x00,
  0x00, 0xa0, 0xb0, 0xc0, 0xd0, 0xe0, 0xf0, 0x00, 0x10, 0x20, 0x30, 0x40, 0x50, 0x60, 0x70, 0x80,
  0x90, 0xa0, 0xb0, 0xc0, 0xd0, 0xe0, 0xf0, 0x00, 0x10, 0x20, 0x30, 0x00, 0x00, 0x00, 0x00, 0x00,
  0x00, 0x00, 0x00, 0x00, 0x00, 0x00, 0x00, 0x00, 0x00, 0x00, 0x00, 0x00, 0x00, 0x00, 0x00, 0x00,
  0x00, 0x00, 0x00, 0x00, 0x00, 0x00, 0x00, 0x00, 0x00, 0x00, 0x00, 0x00, 0x00, 0x00, 0x00, 0x00,
  0x00, 0x00, 0x00, 0x00, 0x00, 0x00, 0x00, 0x00, 0x00, 0x00, 0x00, 0x00, 0x00, 0x00, 0x00, 0x00,
  0x00, 0x00, 0x00, 0x00, 0x00, 0x00, 0x00, 0x00, 0x00, 0x00, 0x00, 0x00, 0x00, 0x00, 0x00, 0x00,
  0x00, 0x00, 0x00, 0x00, 0x00, 0x00, 0x00, 0x00, 0x00, 0x00, 0x00, 0x00, 0x00, 0x00, 0x00, 0x00,
  0x00, 0x00, 0x00, 0x00, 0x00, 0x00, 0x00, 0x00, 0x00, 0x00, 0x00, 0x00, 0x00, 0x00, 0x00, 0x00,
  0x00, 0x00, 0x00, 0x00, 0x00, 0x00, 0x00, 0x00, 0x00, 0x00, 0x00, 0x00, 0x00, 0x00, 0x00, 0x00,
  0x00, 0x00, 0x00, 0x00, 0x00, 0x00, 0x00, 0x00, 0x00, 0x00, 0x00, 0x00, 0x00, 0x00, 0x00, 0x00]

def dtabLow4 : List UInt8 := [
  0x00, 0x00, 0x00, 0x00, 0x00, 0x00, 0x00, 0x00, 0x00, 0x00, 0x00, 0x00, 0x00, 0x00, 0x00, 0x00,
  0x00, 0x00, 0x00, 0x00, 0x00, 0x00, 0x00, 0x00, 0x00, 0x00, 0x00, 0x00, 0x00, 0x00, 0x00, 0x00,
  0x00, 0x00, 0x00, 0x00, 0x00, 0x00, 0x00, 0x00, 0x00, 0x00, 0x00, 0x0f, 0x00, 0x00, 0x00, 0x0f,
  0x0d, 0x0d, 0x0d, 0x0d, 0x0e, 0x0e, 0x0e, 0x0e, 0x0f, 0x0f, 0x00, 0x00, 0x00, 0x00, 0x00, 0x00,
  0x00, 0x00, 0x00, 0x00, 0x00, 0x01, 0x01, 0x01, 0x01, 0x02, 0x02, 0x02, 0x02, 0x03, 0x03, 0x03,
  0x03, 0x04, 0x04, 0x04, 0x04, 0x05, 0x05, 0x05, 0x05, 0x06, 0x06, 0x00, 0x00, 0x00, 0x00, 0x00,
  0x00, 0x06, 0x06, 0x07, 0x07, 0x07, 0x07, 0x08, 0x08, 0x08, 0x08, 0x09, 0x09, 0x09, 0x09, 0x0a,
  0x0a, 0x0a, 0x0a, 0x0b, 0x0b, 0x0b, 0x0b, 0x0c, 0x0c, 0x0c, 0x0c, 0x00, 0x00, 0x00, 0x00, 0x00,
  0x00, 0x00, 0x00, 0x00, 0x00, 0x00, 0x00, 0x00, 0x00, 0x00, 0x00, 0x00, 0x00, 0x00, 0x00, 0x00,
  0x00, 0x00, 0x00, 0x00, 0x00, 0x00, 0x00, 0x00, 0x00, 0x00, 0x00, 0x00, 0x00, 0x00, 0x00, 0x00,
  0x00, 0x00, 0x00, 0x00, 0x00, 0x00, 0x00, 0x00, 0x00, 0x00, 0x00, 0x00, 0x00, 0x00, 0x00, 0x00,
  0x00, 0x00, 0x00, 0x00, 0x00, 0x00, 0x00, 0x00, 0x00, 0x00, 0x00, 0x00, 0x00, 0x00, 0x00, 0x00,
  0x00, 0x00, 0x00, 0x00, 0x00, 0x00, 0x00, 0x00, 0x00, 0x00, 0x00, 0x00, 0x00, 0x00, 0x00, 0x00,
  0x00, 0x00, 0x00, 0x00, 0x00, 0x00, 0x00, 0x00, 0x00, 0x00, 0x00, 0x00, 0x00, 0x00, 0x00, 0x00,
  0x00, 0x00, 0x00, 0x00, 0x00, 0x00, 0x00, 0x00, 0x00, 0x00, 0x00, 0x00, 0x00, 0x00, 0x00, 0x00,
  0x00, 0x00, 0x00, 0x00, 0x00, 0x00, 0x00, 0x00, 0x00, 0x00, 0x00, 0x00, 0x00, 0x00, 0x00, 0x00]

def dtabLow2 : List UInt8 := [
  0x00, 0x00, 0x00, 0x00, 0x00, 0x00, 0x00, 0x00, 0x00, 0x00, 0x00, 0x00, 0x00, 0x00, 0x00, 0x00,
  0x00, 0x00, 0x00, 0x00, 0x00, 0x00, 0x00, 0x00, 0x00, 0x00, 0x00, 0x00, 0x00, 0x00, 0x00, 0x00,
  0x00, 0x00, 0x00, 0x00, 0x00, 0x00, 0x00, 0x00, 0x00, 0x00, 0x00, 0x80, 0x00, 0x00, 0x00, 0xc0,
  0x00, 0x40, 0x80, 0xc0, 0x00, 0x40, 0x80, 0xc0, 0x00, 0x40, 0x00, 0x00, 0x00, 0x00, 0x00, 0x00,
  0x00, 0x00, 0x40, 0x80, 0xc0, 0x00, 0x40, 0x80, 0xc0, 0x00, 0x40, 0x80, 0xc0, 0x00, 0x40, 0x80,
  0xc0, 0x00, 0x40, 0x80, 0xc0, 0x00, 0x40, 0x80, 0xc0, 0x00, 0x40, 0x00, 0x00, 0x00, 0x00, 0x00,
  0x00, 0x80, 0xc0, 0x00, 0x40, 0x80, 0xc0, 0x00, 0x40, 0x80, 0xc0, 0x00, 0x40, 0x80, 0xc0, 0x00,
  0x40, 0x80, 0xc0, 0x00, 0x40, 0x80, 0xc0, 0x00, 0x40, 0x80, 0xc0, 0x00, 0x00, 0x00, 0x00, 0x00,
  0x00, 0x00, 0x00, 0x00, 0x00, 0x00, 0x00, 0x00, 0x00, 0x00, 0x00, 0x00, 0x00, 0x00, 0x00, 0x00,
  0x00, 0x00, 0x00, 0x00, 0x00, 0x00, 0x00, 0x00, 0x00, 0x00, 0x00, 0x00, 0x00, 0x00, 0x00, 0x00,
  0x00, 0x00, 0x00, 0x00, 0x00, 0x00, 0x00, 0x00, 0x00, 0x00, 0x00, 0x00, 0x00, 0x00, 0x00, 0x00,
  0x00, 0x00, 0x00, 0x00, 0x00, 0x00, 0x00, 0x00, 0x00, 0x00, 0x00, 0x00, 0x00, 0x00, 0x00, 0x00,
  0x00, 0x00, 0x00, 0x00, 0x00, 0x00, 0x00, 0x00, 0x00, 0x00, 0x00, 0x00, 0x00, 0x00, 0x00, 0x00,
  0x00, 0x00, 0x00, 0x00, 0x00, 0x00, 0x00, 0x00, 0x00, 0x00, 0x00, 0x00, 0x00, 0x00, 0x00, 0x00,
  0x00, 0x00, 0x00, 0x00, 0x00, 0x00, 0x00, 0x00, 0x00, 0x00, 0x00, 0x00, 0x00, 0x00, 0x00, 0x00,
  0x00, 0x00, 0x00, 0x00, 0x00, 0x00, 0x00, 0x00, 0x00, 0x00, 0x00, 0x00, 0x00, 0x00, 0x00, 0x00]

def dtabLow6 : List UInt8 := [
  0x00, 0x00, 0x00, 0x00, 0x00, 0x00, 0x00, 0x00, 0x00, 0x00, 0x00, 0x00, 0x00, 0x00, 0x00, 0x00,
  0x00, 0x00, 0x00, 0x00, 0x00, 0x00, 0x00, 0x00, 0x00, 0x00, 0x00, 0x00, 0x00, 0x00, 0x00, 0x00,
  0x00, 0x00, 0x00, 0x00, 0x00, 0x00, 0x00, 0x00, 0x00, 0x00, 0x00, 0x3e, 0x00, 0x00, 0x00, 0x3f,
  0x34, 0x35, 0x36, 0x37, 0x38, 0x39, 0x3a, 0x3b, 0x3c, 0x3d, 0x00, 0x00, 0x00, 0x00, 0x00, 0x00,
  0x00, 0x00, 0x01, 0x02, 0x03, 0x04, 0x05, 0x06, 0x07, 0x08, 0x09, 0x0a, 0x0b, 0x0c, 0x0d, 0x0e,
  0x0f, 0x10, 0x11, 0x12, 0x13, 0x14, 0x15, 0x16, 0x17, 0x18, 0x19, 0x00, 0x00, 0x00, 0x00, 0x00,
  0x00, 0x1a, 0x1b, 0x1c, 0x1d, 0x1e, 0x1f, 0x20, 0x21, 0x22, 0x23, 0x24, 0x25, 0x26, 0x27, 0x28,
  0x29, 0x2a, 0x2b, 0x2c, 0x2d, 0x2e, 0x2f, 0x30, 0x31, 0x32, 0x33, 0x00, 0x00, 0x00, 0x00, 0x00,
  0x00, 0x00, 0x00, 0x00, 0x00, 0x00, 0x00, 0x00, 0x00, 0x00, 0x00, 0x00, 0x00, 0x00, 0x00, 0x00,
  0x00, 0x00, 0x00, 0x00, 0x00, 0x00, 0x00, 0x00, 0x00, 0x00, 0x00, 0x00, 0x00, 0x00, 0x00, 0x00,
  0x00, 0x00, 0x00, 0x00, 0x00, 0x00, 0x00, 0x00, 0x00, 0x00, 0x00, 0x00, 0x00, 0x00, 0x00, 0x00,
  0x00, 0x00, 0x00, 0x00, 0x00, 0x00, 0x00, 0x00, 0x00, 0x00, 0x00, 0x00, 0x00, 0x00, 0x00, 0x00,
  0x00, 0x00, 0x00, 0x00, 0x00, 0x00, 0x00, 0x00, 0x00, 0x00, 0x00, 0x00, 0x00, 0x00, 0x00, 0x00,
  0x00, 0x00, 0x00, 0x00, 0x00, 0x00, 0x00, 0x00, 0x00, 0x00, 0x00, 0x00, 0x00, 0x00, 0x00, 0x00,
  0x00, 0x00, 0x00, 0x00, 0x00, 0x00, 0x00, 0x00, 0x00, 0x00, 0x00, 0x00, 0x00, 0x00, 0x00, 0x00,
  0x00, 0x00, 0x00, 0x00, 0x00, 0x00, 0x00, 0x00, 0x00, 0x00, 0x00, 0x00, 0x00, 0x00, 0x00, 0x00]

def base64Alphabet : List Char := [
  'A', 'B', 'C', 'D', 'E', 'F', 'G', 'H', 'I', 'J', 'K', 'L', 'M', 'N', 'O', 'P',
  'Q', 'R', 'S', 'T', 'U', 'V', 'W', 'X', 'Y', 'Z', 'a', 'b', 'c', 'd', 'e', 'f',
  'g', 'h', 'i', 'j', 'k', 'l', 'm', 'n', 'o', 'p', 'q', 'r', 's', 't', 'u', 'v',
  'w', 'x', 'y', 'z', '0', '1', '2', '3', '4', '5', '6', '7', '8', '9', '+', '/']

/-! ## The functions -/

/-- `SZ_BASE64_E`. -/
def szBase64E (x : Nat) : Nat := (x + 2) / 3 * 4 + 1

/-- `SZ_BASE64_D`. -/
def szBase64D (x : Nat) : Nat := x / 4 * 3

def encHigh6 (b : UInt8) : Char := etabHigh6.getD b.toNat '\x00'
def encHigh24 (b : UInt8) : Char := etabHigh24.getD b.toNat '\x00'
def encLow42 (b : UInt8) : Char := etabLow42.getD b.toNat '\x00'
def encLow6 (b : UInt8) : Char := etabLow6.getD b.toNat '\x00'

/-- The loop of `base64_e` from `i` on, and where it leaves the pointer to the bytes. -/
def base64ELoop : Nat → List UInt8 → Text × List UInt8
  | i + 1, d0 :: d1 :: d2 :: d =>
    let (e, d) := base64ELoop i d
    (encHigh6 d0 :: encHigh24 ((d0 &&& 0x03) ||| (d1 &&& 0xF0)) :: encLow42 ((d1 &&& 0x0F) ||| (d2 &&& 0xC0)) ::
      encLow6 d2 :: e, d)
  | _, d => ([], d)

/-- The switch on `dlen % 3`. -/
def base64ETail : List UInt8 → Text
  | [d0, d1] =>
    [encHigh6 d0, encHigh24 ((d0 &&& 0x03) ||| (d1 &&& 0xF0)), encLow42 (d1 &&& 0x0F), '=', '\x00']
  | [d0] => [encHigh6 d0, encHigh24 (d0 &&& 0x03), '=', '=', '\x00']
  | _ => ['\x00']

/-- `base64_e`. -/
def base64E (d : List UInt8) : Text :=
  let (e, d) := base64ELoop (d.length / 3) d
  e ++ base64ETail d

/-- The loop of `base64_d` from `i` on. -/
def base64DLoop : Nat → Text → List UInt8
  | i + 1, e0 :: e1 :: e2 :: e3 :: e =>
    (dtabHigh6.getD e0.toNat 0 ||| dtabHigh2.getD e1.toNat 0) ::
      (dtabHigh4.getD e1.toNat 0 ||| dtabLow4.getD e2.toNat 0) ::
      (dtabLow2.getD e2.toNat 0 ||| dtabLow6.getD e3.toNat 0) :: base64DLoop i e
  | _, _ => []

/-- `base64_d`. -/
def base64D (e : Text) : List UInt8 := base64DLoop (e.length / 4) e

/-! ## What the tables say -/

/-- What holds of each entry of a table of 256 characters and its number holds of each byte and its entry. -/
theorem forall_entry {etab : List Char} {P : Char → UInt8 → Prop}
    (h : etab.length = 256 ∧ ∀ x ∈ etab.zipIdx, P x.1 (UInt8.ofNat x.2)) (b : UInt8) :
    P (etab.getD b.toNat '\x00') b := by
  have hlt : b.toNat < etab.length := by
    rw [h.1]
    exact b.toNat_lt
  have hentry := h.2 (etab[b.toNat], b.toNat) (List.mem_zipIdx_iff_getElem?.mpr (List.getElem?_eq_getElem hlt))
  rw [List.getD_eq_getElem?_getD, List.getElem?_eq_getElem hlt]
  rwa [UInt8.ofNat_toNat] at hentry

theorem etabHigh6_entries : ∀ b, encHigh6 b ∈ base64Alphabet ∧ dtabHigh6.getD (encHigh6 b).toNat 0 = b &&& 0xFC :=
  forall_entry (P := fun c b => c ∈ base64Alphabet ∧ dtabHigh6.getD c.toNat 0 = b &&& 0xFC) (by decide +kernel)

theorem etabHigh24_entries : ∀ b, encHigh24 b ∈ base64Alphabet ∧
    dtabHigh2.getD (encHigh24 b).toNat 0 = b &&& 0x03 ∧ dtabHigh4.getD (encHigh24 b).toNat 0 = b &&& 0xF0 :=
  forall_entry (P := fun c b => c ∈ base64Alphabet ∧ dtabHigh2.getD c.toNat 0 = b &&& 0x03 ∧
    dtabHigh4.getD c.toNat 0 = b &&& 0xF0) (by decide +kernel)

theorem etabLow42_entries : ∀ b, encLow42 b ∈ base64Alphabet ∧
    dtabLow4.getD (encLow42 b).toNat 0 = b &&& 0x0F ∧ dtabLow2.getD (encLow42 b).toNat 0 = b &&& 0xC0 :=
  forall_entry (P := fun c b => c ∈ base64Alphabet ∧ dtabLow4.getD c.toNat 0 = b &&& 0x0F ∧
    dtabLow2.getD c.toNat 0 = b &&& 0xC0) (by decide +kernel)

theorem etabLow6_entries : ∀ b, encLow6 b ∈ base64Alphabet ∧ dtabLow6.getD (encLow6 b).toNat 0 = b &&& 0x3F :=
  forall_entry (P := fun c b => c ∈ base64Alphabet ∧ dtabLow6.getD c.toNat 0 = b &&& 0x3F) (by decide +kernel)

theorem dtabHigh6_etab (b : UInt8) : dtabHigh6.getD (encHigh6 b).toNat 0 = b &&& 0xFC := (etabHigh6_entries b).2

theorem dtabHigh2_etab (b : UInt8) : dtabHigh2.getD (encHigh24 b).toNat 0 = b &&& 0x03 := (etabHigh24_entries b).2.1

theorem dtabHigh4_etab (b : UInt8) : dtabHigh4.getD (encHigh24 b).toNat 0 = b &&& 0xF0 := (etabHigh24_entries b).2.2

theorem dtabLow4_etab (b : UInt8) : dtabLow4.getD (encLow42 b).toNat 0 = b &&& 0x0F := (etabLow42_entries b).2.1

theorem dtabLow2_etab (b : UInt8) : dtabLow2.getD (encLow42 b).toNat 0 = b &&& 0xC0 := (etabLow42_entries b).2.2

theorem dtabLow6_etab (b : UInt8) : dtabLow6.getD (encLow6 b).toNat 0 = b &&& 0x3F := (etabLow6_entries b).2

/-! ## A group of bytes -/

/-- The mask `m` takes the bits `l` out of two that share a byte. -/
theorem masked_or {x y k l m : UInt8} (hl : l &&& m = l) (hk : k &&& m = 0) : ((x &&& l) ||| (y &&& k)) &&& m = x &&& l := by
  have hdistrib : ((x &&& l) ||| (y &&& k)) &&& m = ((x &&& l) &&& m) ||| ((y &&& k) &&& m) :=
    UInt8.toBitVec_inj.mp BitVec.and_or_distrib_right
  rw [hdistrib, UInt8.and_assoc, UInt8.and_assoc, hl, hk, UInt8.and_zero, UInt8.or_zero]

/-- The bits of a byte that two masks share out. -/
theorem masked_join {x k l : UInt8} (h : k ||| l = -1) : (x &&& k) ||| (x &&& l) = x := by
  have hdistrib : x &&& (k ||| l) = (x &&& k) ||| (x &&& l) := UInt8.toBitVec_inj.mp BitVec.and_or_distrib_left
  rw [← hdistrib, h]
  exact UInt8.and_neg_one

theorem high24_low (x y : UInt8) : ((x &&& 0x03) ||| (y &&& 0xF0)) &&& 0x03 = x &&& 0x03 := masked_or (by decide) (by decide)

theorem high24_high (x y : UInt8) : ((x &&& 0x03) ||| (y &&& 0xF0)) &&& 0xF0 = y &&& 0xF0 := by
  rw [UInt8.or_comm]
  exact masked_or (by decide) (by decide)

theorem low42_low (x y : UInt8) : ((x &&& 0x0F) ||| (y &&& 0xC0)) &&& 0x0F = x &&& 0x0F := masked_or (by decide) (by decide)

theorem low42_high (x y : UInt8) : ((x &&& 0x0F) ||| (y &&& 0xC0)) &&& 0xC0 = y &&& 0xC0 := by
  rw [UInt8.or_comm]
  exact masked_or (by decide) (by decide)

theorem base64DLoop_succ (i : Nat) (e0 e1 e2 e3 : Char) (e : Text) :
    base64DLoop (i + 1) (e0 :: e1 :: e2 :: e3 :: e) =
      (dtabHigh6.getD e0.toNat 0 ||| dtabHigh2.getD e1.toNat 0) ::
        (dtabHigh4.getD e1.toNat 0 ||| dtabLow4.getD e2.toNat 0) ::
        (dtabLow2.getD e2.toNat 0 ||| dtabLow6.getD e3.toNat 0) :: base64DLoop i e := rfl

theorem base64DLoop_zero (e : Text) : base64DLoop 0 e = [] := by unfold base64DLoop; rfl

/-- **A group of four characters** gives back the three bytes. -/
theorem base64DLoop_group (i : Nat) (d0 d1 d2 : UInt8) (e : Text) :
    base64DLoop (i + 1) (encHigh6 d0 :: encHigh24 ((d0 &&& 0x03) ||| (d1 &&& 0xF0)) ::
      encLow42 ((d1 &&& 0x0F) ||| (d2 &&& 0xC0)) :: encLow6 d2 :: e) = d0 :: d1 :: d2 :: base64DLoop i e := by
  rw [base64DLoop_succ, dtabHigh6_etab, dtabHigh2_etab, dtabHigh4_etab, dtabLow4_etab, dtabLow2_etab, dtabLow6_etab,
    high24_low, high24_high,
    low42_low, low42_high, masked_join (by decide), masked_join (by decide), masked_join (by decide)]

/-- What is left of two bytes: the third that the decoder writes is zero. -/
theorem base64DLoop_two (d0 d1 : UInt8) :
    base64DLoop 1 [encHigh6 d0, encHigh24 ((d0 &&& 0x03) ||| (d1 &&& 0xF0)), encLow42 (d1 &&& 0x0F), '='] =
      [d0, d1, 0] := by
  have hlow : (d1 &&& 0x0F) &&& 0x0F = d1 &&& 0x0F := by rw [UInt8.and_assoc, UInt8.and_self]
  have hzero : (d1 &&& 0x0F) &&& 0xC0 = 0 := by
    rw [UInt8.and_assoc]
    exact UInt8.and_zero
  have hpad : dtabLow6.getD ('=').toNat 0 = 0 := by decide
  rw [base64DLoop_succ, base64DLoop_zero, dtabHigh6_etab, dtabHigh2_etab, dtabHigh4_etab, dtabLow4_etab, dtabLow2_etab,
    high24_low, high24_high, hlow, hzero, hpad, masked_join (by decide), masked_join (by decide), UInt8.or_zero]

/-- What is left of one byte. -/
theorem base64DLoop_one (d0 : UInt8) :
    base64DLoop 1 [encHigh6 d0, encHigh24 (d0 &&& 0x03), '=', '='] = [d0, 0, 0] := by
  have hlow : (d0 &&& 0x03) &&& 0x03 = d0 &&& 0x03 := by rw [UInt8.and_assoc, UInt8.and_self]
  have hzero : (d0 &&& 0x03) &&& 0xF0 = 0 := by
    rw [UInt8.and_assoc]
    exact UInt8.and_zero
  have hpad4 : dtabLow4.getD ('=').toNat 0 = 0 := by decide
  have hpad2 : dtabLow2.getD ('=').toNat 0 = 0 := by decide
  have hpad6 : dtabLow6.getD ('=').toNat 0 = 0 := by decide
  rw [base64DLoop_succ, base64DLoop_zero, dtabHigh6_etab, dtabHigh2_etab, dtabHigh4_etab, hlow, hzero, hpad4, hpad2, hpad6,
    masked_join (by decide), UInt8.or_zero]

/-! ## The round trip -/

/-- What `base64_e` writes for the bytes `d`: a text and its NUL. -/
structure Base64Text (d : List UInt8) (e text : Text) : Prop where
  written : e = text ++ ['\x00']
  size : e.length = szBase64E d.length
  chars : ∀ c ∈ text, c ∈ base64Alphabet ∨ c = '='
  groups : text.length % 4 = 0
  decodes : base64D text = d ++ List.replicate (szBase64D text.length - d.length) 0

/-- A group in front. -/
theorem Base64Text.cons {d : List UInt8} {e text : Text} (h : Base64Text d e text) (d0 d1 d2 : UInt8) :
    Base64Text (d0 :: d1 :: d2 :: d)
      (encHigh6 d0 :: encHigh24 ((d0 &&& 0x03) ||| (d1 &&& 0xF0)) :: encLow42 ((d1 &&& 0x0F) ||| (d2 &&& 0xC0)) ::
        encLow6 d2 :: e)
      (encHigh6 d0 :: encHigh24 ((d0 &&& 0x03) ||| (d1 &&& 0xF0)) :: encLow42 ((d1 &&& 0x0F) ||| (d2 &&& 0xC0)) ::
        encLow6 d2 :: text) := by
  have hlen : (encHigh6 d0 :: encHigh24 ((d0 &&& 0x03) ||| (d1 &&& 0xF0)) ::
      encLow42 ((d1 &&& 0x0F) ||| (d2 &&& 0xC0)) :: encLow6 d2 :: text).length = text.length + 4 := rfl
  constructor
  · rw [h.written]
    rfl
  · have hsize := h.size
    unfold szBase64E at hsize ⊢
    simp only [List.length_cons]
    omega
  · intro c hc
    simp only [List.mem_cons] at hc
    obtain rfl | rfl | rfl | rfl | hc := hc
    · exact .inl (etabHigh6_entries _).1
    · exact .inl (etabHigh24_entries _).1
    · exact .inl (etabLow42_entries _).1
    · exact .inl (etabLow6_entries _).1
    · exact h.chars c hc
  · have hgroups := h.groups
    omega
  · have hdecodes := h.decodes
    have hgroups := h.groups
    have hdiv : (text.length + 4) / 4 = text.length / 4 + 1 := by omega
    have hleft : (text.length + 4) / 4 * 3 - (d.length + 3) = text.length / 4 * 3 - d.length := by omega
    unfold base64D szBase64D at *
    rw [hlen, hdiv, base64DLoop_group, hdecodes, ← hdiv]
    simp only [List.length_cons, List.cons_append, hleft]

/-- The bytes that are left when the loop ends. -/
theorem base64ETail_text {d : List UInt8} (h : d.length < 3) : ∃ text, Base64Text d (base64ETail d) text := by
  match d, h with
  | [], _ => exact ⟨[], rfl, rfl, by simp, rfl, rfl⟩
  | [d0], _ =>
    refine ⟨[encHigh6 d0, encHigh24 (d0 &&& 0x03), '=', '='], rfl, by simp [base64ETail, szBase64E],
      ?_, by simp, ?_⟩
    · intro c hc
      simp only [List.mem_cons, List.not_mem_nil, or_false] at hc
      obtain rfl | rfl | rfl | rfl := hc
      · exact .inl (etabHigh6_entries _).1
      · exact .inl (etabHigh24_entries _).1
      · exact .inr rfl
      · exact .inr rfl
    · simpa [base64D, szBase64D, List.replicate] using base64DLoop_one d0
  | [d0, d1], _ =>
    refine ⟨[encHigh6 d0, encHigh24 ((d0 &&& 0x03) ||| (d1 &&& 0xF0)), encLow42 (d1 &&& 0x0F), '='], rfl,
      by simp [base64ETail, szBase64E], ?_, by simp, ?_⟩
    · intro c hc
      simp only [List.mem_cons, List.not_mem_nil, or_false] at hc
      obtain rfl | rfl | rfl | rfl := hc
      · exact .inl (etabHigh6_entries _).1
      · exact .inl (etabHigh24_entries _).1
      · exact .inl (etabLow42_entries _).1
      · exact .inr rfl
    · simpa [base64D, szBase64D, List.replicate] using base64DLoop_two d0 d1

theorem base64ELoop_text (i : Nat) : ∀ d : List UInt8, d.length / 3 = i →
    ∃ text, Base64Text d ((base64ELoop i d).1 ++ base64ETail (base64ELoop i d).2) text := by
  induction i with
  | zero =>
    intro d hd
    obtain ⟨text, htext⟩ := base64ETail_text (d := d) (by omega)
    have hloop : base64ELoop 0 d = ([], d) := by
      unfold base64ELoop
      rfl
    rw [hloop]
    exact ⟨text, htext⟩
  | succ i ih =>
    intro d hd
    match d, hd with
    | [], hd => simp at hd
    | [_], hd => simp at hd
    | [_, _], hd => simp at hd
    | d0 :: d1 :: d2 :: d, hd =>
      simp only [List.length_cons] at hd
      obtain ⟨text, htext⟩ := ih d (by omega)
      exact ⟨_, htext.cons d0 d1 d2⟩

theorem base64DLoop_length (i : Nat) : ∀ e : Text, e.length / 4 = i → (base64DLoop i e).length = i * 3 := by
  induction i with
  | zero =>
    intro e _
    rw [base64DLoop_zero]
    rfl
  | succ i ih =>
    intro e he
    match e, he with
    | [], he => simp at he
    | [_], he => simp at he
    | [_, _], he => simp at he
    | [_, _, _], he => simp at he
    | e0 :: e1 :: e2 :: e3 :: e, he =>
      simp only [List.length_cons] at he
      rw [base64DLoop_succ]
      simp only [List.length_cons]
      have hrest := ih e (by omega)
      omega

/-- **The round trip.**  The encoder writes exactly `SZ_BASE64_E` bytes, a text of the alphabet and its padding with a NUL
    behind it, and the decoder gives back the bytes with zeros behind them, `SZ_BASE64_D` bytes in all. -/
theorem base64_roundTrip (d : List UInt8) : ∃ text,
    base64E d = text ++ ['\x00'] ∧ (base64E d).length = szBase64E d.length ∧
      (∀ c ∈ text, c ∈ base64Alphabet ∨ c = '=') ∧
      base64D text = d ++ List.replicate (szBase64D text.length - d.length) 0 ∧
      (base64D text).length = szBase64D text.length := by
  obtain ⟨text, htext⟩ := base64ELoop_text (d.length / 3) d rfl
  exact ⟨text, htext.written, htext.size, htext.chars, htext.decodes, base64DLoop_length _ text rfl⟩

end Simta
